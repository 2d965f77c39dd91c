import CacheBench.Cache
import CacheBench.Report

/-!
# Programs over a cache

A `Program` is a finite piece of work that makes requests to a cache and draws random numbers. It
says nothing about what answers them, so one program can be run against any cache, against any
pattern of failures, and step by step between the steps of others.

`Work` adds early ends to programs. A fault is an error, which the caller handles, or a panic,
which unwinds the worker.
-/

namespace CacheBench

/-- A random number to be drawn: a word from a half-open interval, a number in `[0, 1)`, or one of
two sides. -/
inductive Draw
  | between (low high : UInt64)
  | unit
  | coin

abbrev Draw.Answer : Draw → Type
  | .between _ _ => UInt64
  | .unit => Binary64
  | .coin => Bool

/-- How work ends early. The text of a panic may be lost. -/
inductive Fault (ε : Type)
  | error (e : ε)
  | panic (text : Option String)
deriving DecidableEq

namespace Fault

def map {ε ε' : Type} (f : ε → ε') : Fault ε → Fault ε'
  | .error e => .error (f e)
  | .panic text => .panic text

end Fault

abbrev Response (r : Request) := Except (Fault CacheError) r.Answer

inductive Program (α : Type) : Type
  | done (a : α)
  | ask (r : Request) (next : Response r → Program α)
  | draw (d : Draw) (next : d.Answer → Program α)

namespace Program

variable {α β σ : Type}

def bind : Program α → (α → Program β) → Program β
  | .done a, f => f a
  | .ask r next, f => .ask r fun x => bind (next x) f
  | .draw d next, f => .draw d fun x => bind (next x) f

instance : Monad Program where
  pure := .done
  bind := bind

theorem bind_done (p : Program α) : p.bind .done = p := by
  induction p with
  | done a => rfl
  | ask r next ih => simp only [bind]; congr; funext x; exact ih x
  | draw d next ih => simp only [bind]; congr; funext x; exact ih x

theorem bind_assoc {γ : Type} (p : Program α) (f : α → Program β) (g : β → Program γ) :
    (p.bind f).bind g = p.bind fun a => (f a).bind g := by
  induction p with
  | done a => rfl
  | ask r next ih => simp only [bind]; congr; funext x; exact ih x
  | draw d next ih => simp only [bind]; congr; funext x; exact ih x

instance : LawfulMonad Program :=
  LawfulMonad.mk' _ (fun p => bind_done p) (fun _ _ => rfl) (fun p f g => bind_assoc p f g)

end Program

/-- What answers the requests and draws of programs, with a state of its own. -/
structure Environment (σ : Type) where
  answer : (r : Request) → σ → Response r × σ
  draw : (d : Draw) → σ → d.Answer × σ

/-- A cache as its callers see it: what answers requests, with a state of its own. -/
abbrev Service (σ : Type) := (r : Request) → σ → Response r × σ

def Cache.service (r : Request) (c : Cache) : Response r × Cache :=
  let (x, c) := c.step r
  (x.mapError .error, c)

namespace Program

variable {α β σ : Type}

def run (env : Environment σ) : Program α → σ → α × σ
  | .done a, s => (a, s)
  | .ask r next, s => let (x, s) := env.answer r s; run env (next x) s
  | .draw d next, s => let (x, s) := env.draw d s; run env (next x) s

def step (env : Environment σ) : Program α → σ → Program α × σ
  | .done a, s => (.done a, s)
  | .ask r next, s => let (x, s) := env.answer r s; (next x, s)
  | .draw d next, s => let (x, s) := env.draw d s; (next x, s)

/-- The requests of a run with what they came back with. -/
def trace (env : Environment σ) : Program α → σ → List (Exchange (Fault CacheError))
  | .done _, _ => []
  | .ask r next, s => let (x, s) := env.answer r s; ⟨r, x⟩ :: trace env (next x) s
  | .draw d next, s => let (x, s) := env.draw d s; trace env (next x) s

theorem run_bind (env : Environment σ) (p : Program α) (f : α → Program β) (s : σ) :
    (p.bind f).run env s = (f (p.run env s).1).run env (p.run env s).2 := by
  induction p generalizing s with
  | done a => rfl
  | ask r next ih => exact ih _ _
  | draw d next ih => exact ih _ _

end Program

inductive WorkError
  | cache (e : CacheError)
  /-- A query returned a record outside its interval. -/
  | invalidRecord (min max : Binary64) (r : Record)
  | raised (report : Report)
deriving DecidableEq

namespace WorkError

def report : WorkError → Report
  | .cache e => .cache e
  | .invalidRecord min max r =>
    .text s!"invalid record retrieved [min={min}, max={max}, record={r}]"
  | .raised report => report

end WorkError

abbrev Work := ExceptT (Fault WorkError) Program

namespace Work

def emptyRange : String := "cannot sample empty range"

def ask (r : Request) : Work r.Answer :=
  ExceptT.mk (.ask r fun x => .done (x.mapError (Fault.map .cache)))

/-- A word in `[low, high)`; asking for one of none is a panic. -/
def between (low high : UInt64) : Work UInt64 :=
  if low < high then ExceptT.mk (.draw (.between low high) fun n => .done (.ok n))
  else throw (.panic (some emptyRange))

def unit : Work Binary64 := ExceptT.mk (.draw .unit fun x => .done (.ok x))

def coin : Work Bool := ExceptT.mk (.draw .coin fun b => .done (.ok b))

/-- The outcome of a piece of work, in hand instead of ending its caller. -/
def attempt {α : Type} (w : Work α) : Work (Except (Fault WorkError) α) :=
  ExceptT.mk (w.run.bind fun x => .done (.ok x))

/-- Rolls back and fails with `e`, whether or not the rollback succeeds. -/
def abandon {α : Type} (t : TxId) (e : WorkError) : Work α := do
  match ← attempt (ask (.rollback t)) with
  | .error (.panic text) => throw (.panic text)
  | _ => throw (.error e)

/-- Puts in order of keys, up to the first that fails. -/
def txPutAll (t : TxId) (b : Batch) : Work Unit := b.toList.forM fun (k, v) => ask (.txPut t k v)

/-- Runs `body` in a transaction: commits if it succeeds and rolls back if it fails. -/
def inTransaction {α : Type} (body : TxId → Work α) : Work α := do
  let t ← ask .begin
  match ← attempt (body t) with
  | .ok a => do
    ask (.commit t)
    return a
  | .error (.error e) => abandon t e
  | .error (.panic text) => do
    ask (.drop t)
    throw (.panic text)

end Work

end CacheBench
