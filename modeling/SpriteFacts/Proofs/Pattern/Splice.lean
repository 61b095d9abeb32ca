import SpriteFacts.Proofs.Pattern.Steady

/-! Scanning a text piece by piece. A pattern stays within a text if none of its matches that start there goes
    on into what stands behind. Where that is so for a whole family, the marks of two texts, one behind the
    other, are the marks of the first and then those of the second. -/

namespace SpriteFacts

open Text

namespace Pattern

/-- Every match that starts in the text ends in it, given what stands before it and behind it. -/
def Within (p : Pattern) (behind : List Char) (last : Option Char) (cs : List Char) : Prop :=
  ∀ as bs r, cs = as ++ bs → bs ≠ [] → p.read? (lastOf last as) (bs ++ behind) = some r → r.text <+: bs

variable {p : Pattern} {behind as bs cs : List Char} {last : Option Char}

theorem Within.drop (h : p.Within behind last (as ++ bs)) : p.Within behind (lastOf last as) bs := by
  rintro as' bs' r rfl hne hr
  refine h (as ++ as') bs' r (List.append_assoc ..).symm hne ?_
  rwa [lastOf_append]

/-- What is read where the pattern stays within the text is read there without what stands behind. -/
theorem Within.read?_eq_none (h : p.Within behind last cs) (steady : p.Steady) (hne : cs ≠ []) (hr : p.read? last cs = none) :
    p.read? last (cs ++ behind) = none := by
  cases hread : p.read? last (cs ++ behind) with
  | none => rfl
  | some r =>
    obtain ⟨rest, rfl⟩ := h [] cs r rfl hne hread
    obtain ⟨t, kept, ahead⟩ := r
    have hsplit : t ++ (rest ++ behind) = t ++ ahead := by
      rw [← List.append_assoc]
      exact split_of_mem (mem_of_read? hread)
    obtain rfl := List.append_cancel_left hsplit
    rw [List.append_assoc] at hread
    rw [steady.behind hread rest] at hr
    cases hr

end Pattern

namespace Scan
variable {ι : Type} {ps : ι → Pattern} {last : Option Char} {as bs : List Char} {ms ns : List (Mark ι)}

/-- Two texts, one behind the other, are scanned one after the other if no match reaches from one into the other. -/
theorem append (steady : ∀ i, (ps i).Steady) (apart : Apart ps) (within : ∀ i, (ps i).Within bs last as)
    (front : Scan ps last as ms) (back : Scan ps (lastOf last as) bs ns) : Scan ps last (as ++ bs) (ms ++ ns) := by
  induction front with
  | nil => exact back
  | @plain last c cs ms none _ ih =>
    have hdrop : ∀ i, (ps i).Within bs (some c) cs := fun i => @Pattern.Within.drop _ _ [c] _ _ (within i)
    refine .plain (fun i => ?_) (ih hdrop back)
    exact (within i).read?_eq_none (steady i) (List.cons_ne_nil c cs) (none i)
  | @found last i t cs kept ms here nonempty _ _ ih =>
    have hread := (steady i).behind here (cs ++ bs)
    rw [lastOf_append] at back
    rw [List.append_assoc, List.cons_append]
    exact .found hread nonempty (fun j hj => (apart hread).2 hj) (ih (fun j => (within j).drop) back)

end Scan
end SpriteFacts
