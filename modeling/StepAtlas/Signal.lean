import StepAtlas.Log

/-
Signals: lists of listeners that are called together.
-/

namespace StepAtlas

/-- The listeners of a signal in the order in which they were connected; one may be connected
several times. -/
structure Signal (α : Type) where
  listeners : List α
  disposed : Bool
deriving DecidableEq, Repr

namespace Signal

variable {α : Type}

def new : Signal α := { listeners := [], disposed := false }

/-- Connect a listener, unless the signal is disposed. -/
def connect (s : Signal α) (a : α) : Signal α :=
  if s.disposed then s else { s with listeners := s.listeners ++ [a] }

def disconnect [BEq α] (s : Signal α) (a : α) : Signal α :=
  { s with listeners := s.listeners.erase a }

def dispose (_ : Signal α) : Signal α := { listeners := [], disposed := true }

/-- Call listeners one after the other.  A call changes the state and may fail; a failure is logged
and the next listener is called, unless the log line cannot be shown. -/
def callAll {σ : Type} (call : α → σ → σ × Option Fault) : List α → σ → σ × Option Fault
  | [], state => (state, none)
  | a :: rest, state =>
    match call a state with
    | (state, none) => callAll call rest state
    | (state, some fault) =>
      match log (warning ++ "change listener failed: " ++ fault.message) with
      | .ok () => callAll call rest state
      | .error fault => (state, some fault)

end Signal
end StepAtlas
