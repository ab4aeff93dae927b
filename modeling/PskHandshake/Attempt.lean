/-
Attempts: computations of a handshake that consult a store.

An attempt may fail.  Whether or not it does, it leaves a trace of the lookups it made and of the
events it logged, each in order.

Main statements: the lemmas `runFrom_…`, one for each way to make an attempt, say what its run
against a store adds to a trace.
-/
import PskHandshake.Store

namespace PskHandshake

/-- How much an event matters. -/
inductive Event.Level
  | warn
  | debug
  | trace
deriving DecidableEq, Repr

def Event.Level.name : Event.Level → String
  | warn => "WARN"
  | debug => "DEBUG"
  | trace => "TRACE"

/-- A logged event: a message, and fields with their values as texts. -/
structure Event where
  level : Event.Level
  message : String
  fields : List (String × String)
deriving DecidableEq, Repr

/-- What an attempt leaves behind besides its result. -/
structure Trace where
  lookups : List (Lookup Realm) := []
  log : List Event := []
deriving DecidableEq, Repr

/-- A computation that consults a store, may fail, and leaves a trace. -/
abbrev Attempt (ε : Type) := ReaderT CredentialStore (ExceptT ε (StateM Trace))

/-- How an attempt ended: its result, and its trace. -/
structure Outcome (ε α : Type) where
  result : Except ε α
  trace : Trace

namespace Attempt

variable {ε ε' α : Type}

def emit (event : Event) : Attempt ε Unit :=
  modify fun trace => { trace with log := trace.log ++ [event] }

/-- Asks the store, after noting the lookup in the trace. -/
def ask (lookup : Lookup Realm) (answer : CredentialStore → α) : Attempt ε α := do
  modify fun trace => { trace with lookups := trace.lookups ++ [lookup] }
  return answer (← read)

def askIdentity (realm : Realm) (peer : Endpoint) : Attempt ε (Option String) :=
  ask (.identity realm peer) fun store => store.identity realm peer

def askKey (realm : Realm) (identity : String) : Attempt ε (Option SecretKey) :=
  ask (.key realm identity) fun store => store.key realm identity

/-- The attempt with its error described differently. -/
def mapError (f : ε → ε') (attempt : Attempt ε α) : Attempt ε' α :=
  fun store => (attempt store).adapt f

/-- Runs the attempt against a store, after what a trace already holds. -/
def runFrom (attempt : Attempt ε α) (store : CredentialStore) (trace : Trace) :
    Except ε α × Trace :=
  ((attempt.run store).run.run trace).run

/-- Makes the attempt against a store. -/
def perform (attempt : Attempt ε α) (store : CredentialStore) : Outcome ε α :=
  let (result, trace) := attempt.runFrom store {}
  ⟨result, trace⟩

/-! ### What a run adds to a trace -/

section Run

variable {β : Type} (store : CredentialStore) (trace : Trace)

@[simp] theorem runFrom_pure (a : α) :
    (pure a : Attempt ε α).runFrom store trace = (.ok a, trace) := rfl

@[simp] theorem runFrom_throw (e : ε) :
    (throw e : Attempt ε α).runFrom store trace = (.error e, trace) := rfl

/-- A second attempt starts from the trace of a first that succeeded. -/
theorem runFrom_bind (attempt : Attempt ε α) (next : α → Attempt ε β) :
    (attempt >>= next).runFrom store trace =
      match attempt.runFrom store trace with
      | (.ok a, trace') => (next a).runFrom store trace'
      | (.error e, trace') => (.error e, trace') := by
  simp only [runFrom, ReaderT.run_bind, ExceptT.run_bind, StateT.run_bind, Id.run_bind]
  generalize ((attempt.run store).run.run trace).run = outcome
  obtain ⟨result, trace'⟩ := outcome
  cases result <;> rfl

/-- What handles an error starts from the trace that the failed attempt left. -/
theorem runFrom_tryCatch (attempt : Attempt ε α) (handle : ε → Attempt ε α) :
    (tryCatch attempt handle).runFrom store trace =
      match attempt.runFrom store trace with
      | (.ok a, trace') => (.ok a, trace')
      | (.error e, trace') => (handle e).runFrom store trace' := by
  change (((attempt.run store).run >>= fun
      | .ok a => pure (.ok a)
      | .error e => ((handle e).run store).run : StateM Trace _).run trace).run = _
  simp only [runFrom, StateT.run_bind, Id.run_bind]
  generalize ((attempt.run store).run.run trace).run = outcome
  obtain ⟨result, trace'⟩ := outcome
  cases result <;> rfl

@[simp] theorem runFrom_emit (event : Event) :
    (emit event : Attempt ε Unit).runFrom store trace =
      (.ok (), { trace with log := trace.log ++ [event] }) := rfl

@[simp] theorem runFrom_askIdentity (realm : Realm) (peer : Endpoint) :
    (askIdentity realm peer : Attempt ε _).runFrom store trace =
      (.ok (store.identity realm peer),
        { trace with lookups := trace.lookups ++ [.identity realm peer] }) := rfl

@[simp] theorem runFrom_askKey (realm : Realm) (identity : String) :
    (askKey realm identity : Attempt ε _).runFrom store trace =
      (.ok (store.key realm identity),
        { trace with lookups := trace.lookups ++ [.key realm identity] }) := rfl

/-- Describing an error differently leaves the trace as it is. -/
theorem runFrom_mapError (f : ε → ε') (attempt : Attempt ε α) :
    (attempt.mapError f).runFrom store trace =
      ((attempt.runFrom store trace).1.mapError f, (attempt.runFrom store trace).2) := by
  change ((Except.mapError f <$> (attempt.run store).run : StateM Trace _).run trace).run = _
  simp only [runFrom, StateT.run_map]
  rfl

end Run

end Attempt

end PskHandshake
