import SpriteFacts.Proofs.Idiom.Chain
import SpriteFacts.Proofs.Pattern.Language

/-! Grammars of chains. An expression of a grammar has one text and one form, and each form has an idiom whose pattern covers
    the texts of that form. So at most one idiom reads a text, their order does not matter, and the chain gives what the
    expression with the text states. -/

namespace SpriteFacts

open Pattern

/-- Expressions that idioms read, each idiom those of one form. -/
structure Grammar (ε φ α : Type) where
  text : ε → List Char
  form : ε → φ
  /-- What the pattern of its form keeps of an expression. -/
  kept : ε → List (Nat × List Char)
  states : ε → Option α
  name : φ → String
  inner : φ → Pattern
  read : φ → Match → Scope → Option α
  reads : ∀ f, Reads (inner f) fun t k => ∃ e, form e = f ∧ t = text e ∧ k = kept e
  unique : ∀ {e e'}, text e = text e' → form e = form e' ∧ kept e = kept e'
  gives : ∀ {e m} (s : Scope), m.kept = kept e → read (form e) m s = states e

namespace Grammar
variable {ε φ α : Type} (G : Grammar ε φ α) {s : Scope} {v : α}

def idiom (f : φ) : Idiom α := .ofPattern (G.name f) (whole (G.inner f)) (G.read f)

/-! ### One idiom -/

theorem occursIn_iff (f : φ) {code : List Char} : (whole (G.inner f)).occursIn code = true ↔ ∃ e, G.form e = f ∧ G.text e = code := by
  rw [occursIn_whole (G.reads f)]
  exact ⟨fun ⟨_, e, hform, htext, _⟩ => ⟨e, hform, htext.symm⟩, fun ⟨e, hform, htext⟩ => ⟨_, e, hform, htext.symm, rfl⟩⟩

/-- The patterns of two forms cover no common text. -/
theorem eq_of_occursIn {f g : φ} {code : List Char} (hf : (whole (G.inner f)).occursIn code = true)
    (hg : (whole (G.inner g)).occursIn code = true) : f = g := by
  obtain ⟨e, rfl, htext⟩ := (G.occursIn_iff f).mp hf
  obtain ⟨e', rfl, htext'⟩ := (G.occursIn_iff g).mp hg
  exact (G.unique (htext.trans htext'.symm)).1

theorem read_eq_some (f : φ) : (G.idiom f).read s = some v ↔ ∃ e, G.form e = f ∧ G.text e = s.code ∧ G.states e = some v := by
  show ((whole (G.inner f)).find? s.code).bind (G.read f · s) = some v ↔ _
  constructor
  · intro h
    obtain ⟨m, hfind, hread⟩ := Option.bind_eq_some_iff.mp h
    obtain ⟨e, rfl, htext, hkept⟩ := kept_of_find?_whole (G.reads f) hfind
    exact ⟨e, rfl, htext.symm, (G.gives s hkept).symm.trans hread⟩
  · rintro ⟨e, rfl, htext, hstates⟩
    obtain ⟨m, hfind⟩ := Option.isSome_iff_exists.mp ((G.occursIn_iff (G.form e)).mpr ⟨e, rfl, htext⟩)
    obtain ⟨e', -, htext', hkept⟩ := kept_of_find?_whole (G.reads (G.form e)) hfind
    rw [hfind, Option.bind_some, G.gives s (hkept.trans (G.unique (htext'.symm.trans htext.symm)).2), hstates]

/-! ### The chain -/

theorem apart (forms : List φ) (s : Scope) : IdiomChain.Apart (forms.map G.idiom) s := by
  have occurs : ∀ f, ((G.idiom f).read s).isSome = true → (whole (G.inner f)).occursIn s.code = true := fun f h => by
    obtain ⟨v, hv⟩ := Option.isSome_iff_exists.mp h
    obtain ⟨e, hform, htext, -⟩ := (G.read_eq_some f).mp hv
    exact (G.occursIn_iff f).mpr ⟨e, hform, htext⟩
  intro i hi j hj hireads hjreads
  obtain ⟨f, -, rfl⟩ := List.mem_map.mp hi
  obtain ⟨g, -, rfl⟩ := List.mem_map.mp hj
  rw [G.eq_of_occursIn (occurs f hireads) (occurs g hjreads)]

variable {chain : IdiomChain α} {forms : List φ}

theorem value?_eq_some (hidioms : chain.idioms = forms.map G.idiom) (hall : ∀ f, f ∈ forms) :
    chain.value? s = some v ↔ ∃ e, G.text e = s.code ∧ G.states e = some v := by
  constructor
  · intro h
    obtain ⟨i, hi, hread⟩ := IdiomChain.exists_of_value? h
    obtain ⟨f, -, rfl⟩ := List.mem_map.mp (hidioms ▸ hi)
    obtain ⟨e, -, he⟩ := (G.read_eq_some f).mp hread
    exact ⟨e, he⟩
  · rintro ⟨e, he⟩
    have hi : G.idiom (G.form e) ∈ chain.idioms := hidioms ▸ List.mem_map_of_mem (hall _)
    have hfirst := (IdiomChain.firstMatch?_of_apart (hidioms ▸ G.apart forms s)).mpr
      ⟨_, hi, rfl, (G.read_eq_some _).mpr ⟨e, rfl, he⟩⟩
    rw [IdiomChain.value?, hfirst]
    rfl

end Grammar
end SpriteFacts
