/-!
# Text without terminal commands

Text may hold commands to a terminal: an escape character starts one, and control characters are
commands by themselves. `plain` leaves them out. `Mode.step` is one character, for which it says
what mode comes next and whether the character stays.
-/

namespace CacheBench.Text.Terminal

/-- What the next character belongs to. -/
inductive Mode
  | text
  /-- A command of which only the escape character was seen. -/
  | escape
  /-- A command of an escape character and intermediate characters. -/
  | intermediate
  /-- A command with parameters. -/
  | parameters
  /-- The text of a command to the operating system, which a bell ends. -/
  | title
  /-- The text of another command. -/
  | string
deriving DecidableEq

def escapeChar : Char := '\x1b'

/-- Control characters that end any command. -/
def isCancel (c : Char) : Bool := c = '\x18' || c = '\x1a'

/-- Control characters that only move on in the text. -/
def isSpacing (c : Char) : Bool := c = '\t' || c = '\n' || c = '\x0c' || c = '\r'

def isControl (c : Char) : Bool := c.toNat < 0x20 || c = '\x7f'

namespace Mode

def next (c : Char) : Mode → Mode
  | .text => .text
  | .escape =>
    if c < '0' then .intermediate
    else if c = '[' then .parameters
    else if c = ']' then .title
    else if c = 'P' || c = 'X' || c = '^' || c = '_' then .string
    else .text
  | .intermediate => if c < '0' then .intermediate else .text
  | .parameters => if c < '@' then .parameters else .text
  | .title => .title
  | .string => .string

/-- The mode after a character, and whether the character stays. Spacing interrupts a command,
other control characters do not, nor do characters beyond ASCII. -/
def step (m : Mode) (c : Char) : Mode × Bool :=
  if c = escapeChar then (.escape, false)
  else if isCancel c then (.text, false)
  else match m with
    | .text => (.text, !isControl c || isSpacing c)
    | .title => (if c = '\x07' then .text else .title, false)
    | .string => (.string, false)
    | .escape | .intermediate | .parameters =>
      if isSpacing c then (.text, true)
      else if isControl c || 0x80 ≤ c.toNat then (m, false)
      else (m.next c, false)

end Mode

def keep : Mode → List Char → List Char
  | _, [] => []
  | m, c :: cs =>
    let (m, stays) := m.step c
    if stays then c :: keep m cs else keep m cs

def plain (s : String) : String := String.ofList (keep .text s.toList)

end CacheBench.Text.Terminal
