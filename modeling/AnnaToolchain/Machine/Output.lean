import AnnaToolchain.Word

/-! # Output

    Each output instruction puts out one value.  Where the values go may
    take no more of them, and then the machine cannot go on. -/

namespace AnnaToolchain

/-- A value put out. -/
inductive Output where
  /-- A number. -/
  | number (value : Word)
  /-- A number and a line end. -/
  | line (value : Word)
  | text (contents : String)
  deriving DecidableEq, Repr

/-- A value as it is printed. -/
def Output.printed : Output → String
  | .number value => value.signedText
  | .line value => value.signedText ++ "\n"
  | .text contents => contents

/-! ## Sinks -/

/-- Where output goes.  Whether a value is taken may depend on all that were offered before it,
    those that were refused among them. -/
structure Sink where
  /-- Whether a value is taken, behind those that were offered before, the last one first. -/
  takes : List Output → Output → Bool
  /-- Whether the values that are taken are kept. -/
  keeps : Bool
  /-- The values that were offered, the last one first. -/
  offered : List Output := []

namespace Sink

/-- Output is taken and lost. -/
def discard : Sink where
  takes _ _ := true
  keeps := false

/-- Output is taken and kept. -/
def keep : Sink where
  takes _ _ := true
  keeps := true

/-- That many values are kept, and further ones are refused. -/
def limited (count : Nat) : Sink where
  takes offered _ := offered.length < count
  keeps := true

/-- Everything is refused. -/
def closed : Sink :=
  .limited 0

/-- Offers a value.  Gives the sink after it, and whether the value was taken. -/
def emit (s : Sink) (value : Output) : Sink × Bool :=
  ({ s with offered := value :: s.offered }, s.takes s.offered value)

/-! ## Sinks with a state -/

section

variable {σ : Type} (step : σ → Output → σ × Bool)

/-- The state after the values offered, the last one first. -/
def stateAfter (state : σ) (offered : List Output) : σ :=
  offered.foldr (fun value state => (step state value).1) state

/-- The sink that starts in a state, and goes on to another one with each value offered. -/
def ofState (state : σ) (keeps : Bool) : Sink where
  takes offered value := (step (stateAfter step state offered) value).2
  keeps := keeps

/-- Which of the values a sink takes that are offered one after another. -/
def answers (s : Sink) : List Output → List Bool
  | [] => []
  | value :: values => (s.emit value).2 :: (s.emit value).1.answers values

/-- Which of them are taken from a state on. -/
def answersFrom (state : σ) : List Output → List Bool
  | [] => []
  | value :: values => (step state value).2 :: answersFrom (step state value).1 values

/-- **Sinks** with a state of any kind are sinks: what was offered to them is all that their state
    depends on. -/
theorem answers_ofState (state : σ) (keeps : Bool) (values : List Output) :
    (ofState step state keeps).answers values = answersFrom step state values := by
  have hfrom (offered : List Output) :
      answers { ofState step state keeps with offered := offered } values
        = answersFrom step (stateAfter step state offered) values := by
    induction values generalizing offered with
    | nil => rfl
    | cons value values ih => exact congrArg (_ :: ·) (ih (value :: offered))
  exact hfrom []

end

end Sink

end AnnaToolchain
