import SpriteFacts.Pattern.Build
import SpriteFacts.Pattern.Search

/-! What a pattern reads. From a place of a text a pattern can be read in several ways, and its choices put
    them in order of preference. Trying a pattern gives the answer of the first way from which the rest
    gives one, so a search is a question about the list of its readings. A reading knows the text that
    it takes and nothing of offsets: where it stands only shifts the match. -/

namespace SpriteFacts

/-- One way to read a pattern: the text it takes, the texts it keeps, the latest first, and the text ahead. -/
structure Reading where
  text : List Char
  kept : List (Nat × List Char)
  rest : List Char
  deriving DecidableEq

namespace Reading

/-- The text read after a character is read before it as well. -/
def cons (c : Char) (r : Reading) : Reading := { r with text := c :: r.text }

def append (r s : Reading) : Reading := ⟨r.text ++ s.text, s.kept ++ r.kept, s.rest⟩

def keep (number : Nat) (r : Reading) : Reading := { r with kept := (number, r.text) :: r.kept }

def toMatch (offset : Nat) (r : Reading) : Match := ⟨offset, offset + Text.byteLength r.text, r.text, r.kept⟩

end Reading

namespace Text

/-- The character before the place that a text ends at, given the one before the place it starts at. -/
def lastOf : Option Char → List Char → Option Char
  | last, [] => last
  | _, c :: cs => lastOf (some c) cs

@[simp] theorem lastOf_nil (last : Option Char) : lastOf last [] = last := rfl

@[simp] theorem lastOf_cons (last : Option Char) (c : Char) (cs : List Char) :
    lastOf last (c :: cs) = lastOf (some c) cs := rfl

@[simp] theorem lastOf_append (last : Option Char) (as bs : List Char) :
    lastOf last (as ++ bs) = lastOf (lastOf last as) bs := by
  induction as generalizing last with
  | nil => rfl
  | cons a as ih => exact ih (some a)

end Text

namespace Pattern

open Text

/-- The place after a reading. -/
def Trail.over (b : Trail) (r : Reading) : Trail :=
  ⟨lastOf b.last r.text, b.offset + byteLength r.text, r.kept ++ b.kept⟩

/-- The readings of a greedy run, the longest first. -/
def runReadings (ok : Char → Bool) : List Char → List Reading
  | [] => [⟨[], [], []⟩]
  | c :: cs => (if ok c then (runReadings ok cs).map (Reading.cons c) else []) ++ [⟨[], [], c :: cs⟩]

/-- The readings of a lazy run, the shortest first. -/
def lazyReadings (ok : Char → Bool) : List Char → List Reading
  | [] => [⟨[], [], []⟩]
  | c :: cs => ⟨[], [], c :: cs⟩ :: (if ok c then (lazyReadings ok cs).map (Reading.cons c) else [])

/-- All readings of a pattern from a place on, in order of preference. -/
def readings : Pattern → Option Char → List Char → List Reading
  | empty, _, cs => [⟨[], [], cs⟩]
  | one _, _, [] => []
  | one ok, _, c :: cs => if ok c then [⟨[c], [], cs⟩] else []
  | run ok, _, cs => runReadings ok cs
  | lazyRun ok, _, cs => lazyReadings ok cs
  | wordEdge, last, cs => if last.any isWord != cs.head?.any isWord then [⟨[], [], cs⟩] else []
  | textStart, last, cs => if last.isNone then [⟨[], [], cs⟩] else []
  | textEnd, _, cs => if cs.isEmpty then [⟨[], [], cs⟩] else []
  | seq p q, last, cs => (p.readings last cs).flatMap fun r => (q.readings (lastOf last r.text) r.rest).map r.append
  | alt p q, last, cs => p.readings last cs ++ q.readings last cs
  | group n p, last, cs => (p.readings last cs).map (Reading.keep n)

/-! ### A reading takes the text that stands there -/

theorem split_of_mem_runReadings {ok : Char → Bool} {r : Reading} :
    ∀ {cs : List Char}, r ∈ runReadings ok cs → cs = r.text ++ r.rest
  | [], h => by
    obtain rfl := List.mem_singleton.mp h
    rfl
  | c :: cs, h => by
    rcases List.mem_append.mp h with h | h
    · split at h
      · obtain ⟨s, hs, rfl⟩ := List.mem_map.mp h
        exact congrArg (c :: ·) (split_of_mem_runReadings hs)
      · simp at h
    · obtain rfl := List.mem_singleton.mp h
      rfl

theorem split_of_mem_lazyReadings {ok : Char → Bool} {r : Reading} :
    ∀ {cs : List Char}, r ∈ lazyReadings ok cs → cs = r.text ++ r.rest
  | [], h => by
    obtain rfl := List.mem_singleton.mp h
    rfl
  | c :: cs, h => by
    rcases List.mem_cons.mp h with rfl | h
    · rfl
    · split at h
      · obtain ⟨s, hs, rfl⟩ := List.mem_map.mp h
        exact congrArg (c :: ·) (split_of_mem_lazyReadings hs)
      · simp at h

theorem split_of_mem {p : Pattern} {last : Option Char} {cs : List Char} {r : Reading}
    (h : r ∈ p.readings last cs) : cs = r.text ++ r.rest := by
  induction p generalizing last cs r with
  | empty =>
    obtain rfl := List.mem_singleton.mp h
    rfl
  | one ok =>
    cases cs with
    | nil => simp [readings] at h
    | cons c cs =>
      simp only [readings] at h
      split at h
      · obtain rfl := List.mem_singleton.mp h
        rfl
      · simp at h
  | run ok => exact split_of_mem_runReadings h
  | lazyRun ok => exact split_of_mem_lazyReadings h
  | wordEdge | textStart | textEnd =>
    simp only [readings] at h
    split at h
    · obtain rfl := List.mem_singleton.mp h
      rfl
    · simp at h
  | seq p q ihp ihq =>
    simp only [readings, List.mem_flatMap, List.mem_map] at h
    obtain ⟨a, ha, b, hb, rfl⟩ := h
    rw [ihp ha, ihq hb]
    simp [Reading.append]
  | alt p q ihp ihq =>
    rcases List.mem_append.mp h with h | h
    · exact ihp h
    · exact ihq h
  | group n p ih =>
    obtain ⟨a, ha, rfl⟩ := List.mem_map.mp h
    exact ih (r := a) ha

theorem takeBytes_of_mem {p : Pattern} {last : Option Char} {cs : List Char} {r : Reading}
    (h : r ∈ p.readings last cs) : takeBytes (byteLength r.text) cs = r.text := by
  rw [split_of_mem h, takeBytes_append]

/-! ### Trying a pattern -/

theorem findSome?_congr {α β : Type} {f g : α → Option β} :
    ∀ {xs : List α}, (∀ x ∈ xs, f x = g x) → xs.findSome? f = xs.findSome? g
  | [], _ => rfl
  | x :: xs, h => by
    rw [List.findSome?_cons, List.findSome?_cons, h x List.mem_cons_self,
      findSome?_congr fun y hy => h y (List.mem_cons_of_mem x hy)]

theorem findSome?_flatMap {α β γ : Type} (f : β → Option γ) (g : α → List β) (xs : List α) :
    (xs.flatMap g).findSome? f = xs.findSome? fun x => (g x).findSome? f := by
  induction xs with
  | nil => rfl
  | cons x xs ih =>
    rw [List.flatMap_cons, List.findSome?_append, List.findSome?_cons, ih]
    cases (g x).findSome? f <;> rfl

section Try
variable {α : Type} {k : Rest α}

theorem tryRun_eq (ok : Char → Bool) (b : Trail) (cs : List Char) :
    tryRun ok k b cs = (runReadings ok cs).findSome? fun r => k (b.over r) r.rest := by
  induction cs generalizing b with
  | nil => simp [tryRun, runReadings, Trail.over]
  | cons c cs ih =>
    have stop : k b (c :: cs) = k (b.over ⟨[], [], c :: cs⟩) (c :: cs) := rfl
    by_cases hc : ok c
    · have go : tryRun ok k (b.push c) cs = ((runReadings ok cs).map (Reading.cons c)).findSome?
          fun r => k (b.over r) r.rest := by
        rw [ih, List.findSome?_map]
        apply findSome?_congr
        intro r _
        simp [Trail.over, Trail.push, Reading.cons, Nat.add_assoc]
      rw [tryRun, if_pos hc, go, runReadings, if_pos hc, List.findSome?_append, stop]
      cases ((runReadings ok cs).map (Reading.cons c)).findSome? fun r => k (b.over r) r.rest <;> simp
    · simp [tryRun, runReadings, hc, stop]

theorem tryLazyRun_eq (ok : Char → Bool) (b : Trail) (cs : List Char) :
    tryLazyRun ok k b cs = (lazyReadings ok cs).findSome? fun r => k (b.over r) r.rest := by
  induction cs generalizing b with
  | nil => simp [tryLazyRun, lazyReadings, Trail.over]
  | cons c cs ih =>
    have stop : k b (c :: cs) = k (b.over ⟨[], [], c :: cs⟩) (c :: cs) := rfl
    have go : tryLazyRun ok k (b.push c) cs = ((lazyReadings ok cs).map (Reading.cons c)).findSome?
        fun r => k (b.over r) r.rest := by
      rw [ih, List.findSome?_map]
      apply findSome?_congr
      intro r _
      simp [Trail.over, Trail.push, Reading.cons, Nat.add_assoc]
    rw [tryLazyRun, lazyReadings, List.findSome?_cons, stop]
    by_cases hc : ok c
    · rw [if_pos hc, if_pos hc, go]
      rfl
    · rw [if_neg hc, if_neg hc]
      rfl

/-- Trying a pattern gives the answer of its first reading from which the rest gives one. -/
theorem tryAt_eq (p : Pattern) (k : Rest α) (b : Trail) (cs : List Char) :
    p.tryAt k b cs = (p.readings b.last cs).findSome? fun r => k (b.over r) r.rest := by
  induction p generalizing k b cs with
  | empty => simp [tryAt, readings, Trail.over]
  | one ok =>
    cases cs with
    | nil => rfl
    | cons c cs =>
      by_cases hc : ok c
      · simp [tryAt, readings, hc, Trail.over, Trail.push]
      · simp [tryAt, readings, hc]
  | run ok => exact tryRun_eq ok b cs
  | lazyRun ok => exact tryLazyRun_eq ok b cs
  | wordEdge =>
    by_cases h : atWordEdge b cs
    · have h' := h
      unfold atWordEdge at h'
      simp [tryAt, readings, h, h', Trail.over]
    · have h' := h
      unfold atWordEdge at h'
      simp [tryAt, readings, h, h']
  | textStart => by_cases h : b.last.isNone <;> simp [tryAt, readings, h, Trail.over]
  | textEnd => by_cases h : cs.isEmpty <;> simp [tryAt, readings, h, Trail.over]
  | seq p q ihp ihq =>
    rw [tryAt, ihp, readings, findSome?_flatMap]
    apply findSome?_congr
    intro r _
    rw [ihq, List.findSome?_map]
    apply findSome?_congr
    intro s _
    simp [Trail.over, Reading.append, Nat.add_assoc]
  | alt p q ihp ihq =>
    rw [tryAt, ihp, ihq, readings, List.findSome?_append]
    cases (p.readings b.last cs).findSome? fun r => k (b.over r) r.rest <;> simp
  | group n p ih =>
    rw [tryAt, ih, readings, List.findSome?_map]
    apply findSome?_congr
    intro r hr
    simp [Trail.over, Trail.keep, Reading.keep, takeBytes_of_mem hr]

end Try

/-! ### The match at a place -/

/-- The preferred reading of a pattern from a place on. -/
def read? (p : Pattern) (last : Option Char) (cs : List Char) : Option Reading := (p.readings last cs).head?

/-- A place of a search: it has read nothing yet. -/
def place (last : Option Char) (offset : Nat) : Trail := ⟨last, offset, []⟩

theorem matchAt_eq (p : Pattern) (last : Option Char) (n : Nat) (cs : List Char) :
    p.matchAt (place last n) cs = (p.read? last cs).map (Reading.toMatch n) := by
  have all : ∀ r ∈ p.readings last cs, (some ⟨(place last n).offset, ((place last n).over r).offset,
      takeBytes (((place last n).over r).offset - (place last n).offset) cs, ((place last n).over r).kept⟩
        : Option Match) = some (r.toMatch n) := by
    intro r hr
    simp [place, Trail.over, Reading.toMatch, takeBytes_of_mem hr]
  rw [matchAt, tryAt_eq, read?]
  show (p.readings last cs).findSome? _ = _
  rw [findSome?_congr all]
  cases p.readings last cs <;> rfl

theorem read?_eq_none {p : Pattern} {last : Option Char} {cs : List Char} :
    p.read? last cs = none ↔ ∀ r, r ∉ p.readings last cs := by
  rw [read?, List.head?_eq_none_iff, List.eq_nil_iff_forall_not_mem]

theorem mem_of_read? {p : Pattern} {last : Option Char} {cs : List Char} {r : Reading}
    (h : p.read? last cs = some r) : r ∈ p.readings last cs := List.mem_of_head? h

theorem read?_of_unique {p : Pattern} {last : Option Char} {cs : List Char} {r : Reading}
    (h : r ∈ p.readings last cs) (unique : ∀ s ∈ p.readings last cs, s = r) : p.read? last cs = some r := by
  unfold read?
  cases hs : p.readings last cs with
  | nil =>
    rw [hs] at h
    cases h
  | cons s ss => exact congrArg some (unique s (hs ▸ List.mem_cons_self))

/-! ### The readings of each kind of pattern -/

section Mem
variable {p q : Pattern} {ok : Char → Bool} {last : Option Char} {cs : List Char} {r : Reading}

theorem mem_readings_one :
    r ∈ (one ok).readings last cs ↔ ∃ c rest, cs = c :: rest ∧ ok c = true ∧ r = ⟨[c], [], rest⟩ := by
  cases cs with
  | nil => simp [readings]
  | cons c cs =>
    simp only [readings]
    constructor
    · intro h
      split at h
      · rename_i hc
        exact ⟨c, cs, rfl, hc, List.mem_singleton.mp h⟩
      · cases h
    · rintro ⟨d, rest, h, hd, rfl⟩
      obtain ⟨rfl, rfl⟩ := List.cons.inj h
      rw [if_pos hd]
      exact List.mem_singleton_self _

theorem mem_readings_char {c : Char} : r ∈ (char c).readings last cs ↔ ∃ rest, cs = c :: rest ∧ r = ⟨[c], [], rest⟩ := by
  rw [char, mem_readings_one]
  constructor
  · rintro ⟨d, rest, h, hd, hr⟩
    rw [beq_iff_eq] at hd
    subst hd
    exact ⟨rest, h, hr⟩
  · rintro ⟨rest, h, hr⟩
    exact ⟨c, rest, h, beq_self_eq_true c, hr⟩

theorem mem_runReadings : r ∈ runReadings ok cs ↔ ∃ t rest, cs = t ++ rest ∧ t.all ok = true ∧ r = ⟨t, [], rest⟩ := by
  constructor
  · intro h
    refine ⟨r.text, r.rest, split_of_mem_runReadings h, ?_⟩
    induction cs generalizing r with
    | nil =>
      obtain rfl := List.mem_singleton.mp h
      exact ⟨rfl, rfl⟩
    | cons c cs ih =>
      rcases List.mem_append.mp h with h | h
      · split at h
        · rename_i hc
          obtain ⟨s, hs, rfl⟩ := List.mem_map.mp h
          obtain ⟨hall, hs'⟩ := ih hs
          rw [hs']
          exact ⟨by simp [Reading.cons, hc, hall], rfl⟩
        · simp at h
      · obtain rfl := List.mem_singleton.mp h
        exact ⟨rfl, rfl⟩
  · rintro ⟨t, rest, rfl, hall, rfl⟩
    induction t with
    | nil => cases rest <;> simp [runReadings]
    | cons c t ih =>
      rw [List.all_cons, Bool.and_eq_true] at hall
      refine List.mem_append.mpr (Or.inl ?_)
      rw [if_pos hall.1]
      exact List.mem_map.mpr ⟨_, ih hall.2, rfl⟩

theorem mem_readings_run :
    r ∈ (run ok).readings last cs ↔ ∃ t rest, cs = t ++ rest ∧ t.all ok = true ∧ r = ⟨t, [], rest⟩ := mem_runReadings

theorem mem_lazyReadings :
    r ∈ lazyReadings ok cs ↔ ∃ t rest, cs = t ++ rest ∧ t.all ok = true ∧ r = ⟨t, [], rest⟩ := by
  induction cs generalizing r with
  | nil =>
    constructor
    · intro h
      exact ⟨[], [], rfl, rfl, List.mem_singleton.mp h⟩
    · rintro ⟨t, rest, h, -, rfl⟩
      obtain ⟨rfl, rfl⟩ := List.append_eq_nil_iff.mp h.symm
      exact List.mem_singleton_self _
  | cons c cs ih =>
    simp only [lazyReadings, List.mem_cons]
    constructor
    · rintro (rfl | h)
      · exact ⟨[], c :: cs, rfl, rfl, rfl⟩
      · split at h
        · rename_i hc
          obtain ⟨s, hs, rfl⟩ := List.mem_map.mp h
          obtain ⟨t, rest, rfl, hall, rfl⟩ := ih.mp hs
          exact ⟨c :: t, rest, rfl, by simp [hc, hall], rfl⟩
        · cases h
    · rintro ⟨t, rest, h, hall, rfl⟩
      cases t with
      | nil => exact Or.inl (by rw [h]; rfl)
      | cons d t =>
        obtain ⟨rfl, rfl⟩ := List.cons.inj h
        rw [List.all_cons, Bool.and_eq_true] at hall
        refine Or.inr ?_
        rw [if_pos hall.1]
        exact List.mem_map.mpr ⟨⟨t, [], rest⟩, ih.mpr ⟨t, rest, rfl, hall.2, rfl⟩, rfl⟩

theorem mem_readings_lazyRun :
    r ∈ (lazyRun ok).readings last cs ↔ ∃ t rest, cs = t ++ rest ∧ t.all ok = true ∧ r = ⟨t, [], rest⟩ :=
  mem_lazyReadings

theorem mem_readings_wordEdge :
    r ∈ wordEdge.readings last cs ↔ (last.any isWord != cs.head?.any isWord) = true ∧ r = ⟨[], [], cs⟩ := by
  simp only [readings]
  split <;> simp_all

theorem mem_readings_textStart : r ∈ textStart.readings last cs ↔ last = none ∧ r = ⟨[], [], cs⟩ := by
  cases last <;> simp [readings]

theorem mem_readings_textEnd : r ∈ textEnd.readings last cs ↔ cs = [] ∧ r = ⟨[], [], cs⟩ := by
  cases cs <;> simp [readings]

theorem mem_readings_seq : r ∈ (seq p q).readings last cs ↔
    ∃ a ∈ p.readings last cs, ∃ b ∈ q.readings (lastOf last a.text) a.rest, r = a.append b := by
  simp only [readings, List.mem_flatMap, List.mem_map, eq_comm]

theorem append_comp_append (a b : Reading) : a.append ∘ b.append = (a.append b).append := by
  funext c
  simp [Reading.append]

theorem readings_seq_assoc (p q s : Pattern) (last : Option Char) (cs : List Char) :
    (seq (seq p q) s).readings last cs = (seq p (seq q s)).readings last cs := by
  simp only [readings, List.flatMap_assoc, List.map_flatMap, List.flatMap_map, List.map_map, append_comp_append]
  simp only [Reading.append, lastOf_append]

theorem mem_readings_alt : r ∈ (alt p q).readings last cs ↔ r ∈ p.readings last cs ∨ r ∈ q.readings last cs :=
  List.mem_append

theorem mem_readings_group {n : Nat} : r ∈ (group n p).readings last cs ↔ ∃ a ∈ p.readings last cs, r = a.keep n := by
  simp only [readings, List.mem_map, eq_comm]

theorem mem_readings_chars {as : List Char} :
    r ∈ (all (as.map char)).readings last cs ↔ ∃ rest, cs = as ++ rest ∧ r = ⟨as, [], rest⟩ := by
  induction as generalizing last cs r with
  | nil => simp [all, readings]
  | cons a as ih =>
    cases as with
    | nil => exact mem_readings_char
    | cons b as =>
      rw [List.map_cons, List.map_cons, all, ← List.map_cons, mem_readings_seq]
      · constructor
        · rintro ⟨x, hx, y, hy, rfl⟩
          obtain ⟨rest, rfl, rfl⟩ := mem_readings_char.mp hx
          obtain ⟨rest', hrest, rfl⟩ := ih.mp hy
          exact ⟨rest', congrArg (a :: ·) hrest, rfl⟩
        · rintro ⟨rest, rfl, rfl⟩
          exact ⟨_, mem_readings_char.mpr ⟨b :: as ++ rest, rfl, rfl⟩, _, ih.mpr ⟨rest, rfl, rfl⟩, rfl⟩
      · simp

theorem mem_readings_literal {s : String} :
    r ∈ (literal s).readings last cs ↔ ∃ rest, cs = s.toList ++ rest ∧ r = ⟨s.toList, [], rest⟩ := mem_readings_chars

end Mem

/-- A text does not go on with a class if it begins with characters outside of it. -/
theorem head_outside {p q : Char → Bool} (hpq : ∀ c, p c = true → q c = false) {as bs : List Char} (has : as.all p = true)
    (hbs : as = [] → bs.head?.all (fun c => !q c) = true) : (as ++ bs).head?.all (fun c => !q c) = true := by
  cases as with
  | nil => exact hbs rfl
  | cons a as =>
    rw [List.all_cons, Bool.and_eq_true] at has
    exact Bool.not_eq_true' _ ▸ hpq a has.1

/-- Two ways to split a text after characters of a class, each as far as the class goes, are one. -/
theorem span_unique {ok : Char → Bool} {as bs xs ys : List Char} (h : as ++ xs = bs ++ ys)
    (ha : as.all ok = true) (hb : bs.all ok = true) (hx : xs.head?.all (fun c => !ok c) = true)
    (hy : ys.head?.all (fun c => !ok c) = true) : as = bs ∧ xs = ys := by
  induction as generalizing bs with
  | nil =>
    cases bs with
    | nil => exact ⟨rfl, h⟩
    | cons b bs =>
      rw [List.nil_append] at h
      subst h
      simp_all
  | cons a as ih =>
    cases bs with
    | nil =>
      rw [List.nil_append] at h
      subst h
      simp_all
    | cons b bs =>
      obtain ⟨rfl, htail⟩ := List.cons.inj h
      rw [List.all_cons, Bool.and_eq_true] at ha hb
      obtain ⟨rfl, rfl⟩ := ih htail ha.2 hb.2
      exact ⟨rfl, rfl⟩

end Pattern
end SpriteFacts
