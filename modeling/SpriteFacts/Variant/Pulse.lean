import SpriteFacts.Idiom.Chain
import SpriteFacts.Variant.Animation

/-! Pulses driven by the tick: the distance of the tick from a peak, on the blue of a packed color or on
    the light, and a tick mask that swings the red channel. -/

namespace SpriteFacts.Pulse

open Pattern

/-- The distance of the tick from a peak, with an optional divisor and an optional offset. The four
    literals are kept under `n` and the three numbers after it. -/
def tickDistance (n : Nat) : Pattern :=
  all [
    spaced [literal "abs", char '(', group n digits, char '-', char '(', literal "attick", char '%',
      group (n + 1) digits, char ')', char ')'],
    optional (all [blanks, char '/', blanks, group (n + 2) digits]),
    optional (all [blanks, char '+', blanks, group (n + 3) digits])]

/-- A packed color whose blue is the distance of the tick from a peak. -/
def colorPattern : Pattern :=
  spaced [seq wordEdge (group 1 (seq (char 'c') (one fun c => c == '1' || c == '2' || c == '3'))), char '=',
    literal "IRGB", char '(', group 2 digits, char ',', group 3 digits, char ',', tickDistance 4, char ')']

def colorPulse? (m : Match) : Option ColorPulse := do
  let target ← ColorSlot.ofName? (String.ofList (m.group 1))
  let r ← m.word? 2
  let g ← m.word? 3
  let maxBlue ← m.word? 4
  let period ← m.word? 5
  some ⟨target, r, g, maxBlue, period, (m.word? 6).getD 1, (m.word? 7).getD 0⟩

def colorChain : IdiomChain ColorPulse where
  field := "color_pulse"
  idioms := [.ofPattern "irgb-abs-tick" colorPattern fun m _ => colorPulse? m]

def lightPulse? (m : Match) : Option LightPulse := do
  let max ← m.word? 1
  let period ← m.word? 2
  some ⟨max, period, (m.word? 3).getD 1, (m.word? 4).getD 0⟩

def lightChain : IdiomChain LightPulse where
  field := "light_pulse"
  idioms := [.ofPattern "abs-tick" (spaced [assignTo "light", tickDistance 1]) fun m _ => lightPulse? m]

/-- The red channel as a base and a multiple of the helper variable. -/
def redHelper : Pattern :=
  spaced [assignTo "cr", group 1 digits, char '+', literal "helper", char '*', group 2 digits]

/-- The swing that a tick mask drives. Its period is one more than the mask; the code's first use of the
    helper gives the base, and its step times half the period the amplitude. -/
def maskPulse? (m : Match) (s : Scope) : Option Animation := do
  let mask ← m.word? 1
  if mask = Text.maxWord then none else
    let period := mask + 1
    match redHelper.find? s.code with
    | none => some (.pulse period "cr" none none)
    | some h =>
      let base ← h.integer? 1
      let step ← h.integer? 2
      let amplitude ← Text.fitInteger? (step * (period / 2 : Nat))
      some (.pulse period "cr" (some base) (some amplitude))

def maskChain : IdiomChain Animation where
  field := "animation"
  idioms := [.ofPattern "tick-mask" (spaced [wordStart "attick", char '&', group 1 digits]) maskPulse?]

end SpriteFacts.Pulse
