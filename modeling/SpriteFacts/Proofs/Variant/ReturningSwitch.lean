import SpriteFacts.Proofs.Record.LastWins
import SpriteFacts.Proofs.Variant.AnimatedSwitch

/-! The static channels of a variant switch with returns. Control leaves such a switch at a `break;` or at a return, but
    the code of a label runs up to its `break;` and past any return on the way. So a record states what is assigned in
    front of the `break;`, and it states only what control comes to unless a label is overrun, that is, unless the
    code behind a return assigns a channel that the code in front of it does not. -/

namespace SpriteFacts

open Switch Text Pattern

/-! ### Statements that assign or return -/

/-- A statement of a switch that returns: an assignment, or a return out of the function. -/
inductive Step where
  | assign (a : Assignment)
  | quit

namespace Step

def quitText : List Char := "return 0;".toList

def text : Step → List Char
  | assign a => a.text
  | quit => quitText

def assignment? : Step → Option Assignment
  | assign a => some a
  | quit => none

/-- No assignment begins like a return. -/
theorem solid_ne_quit {a : Assignment} {xs ys : List Char} : solid a.text ++ xs ≠ solid quitText ++ ys := by
  have hname : ∀ v : Variable, (v.name != [] && v.name.head? != some 'r') = true := Variable.of_all (by decide)
  obtain ⟨hne, hhead⟩ := (Bool.and_eq_true _ _).mp (hname a.target)
  intro h
  rw [solid, a.filter_text, Assignment.bare, List.append_assoc] at h
  have hfirst := congrArg List.head? h
  rw [List.head?_append_of_ne_nil _ (bne_iff_ne.mp hne)] at hfirst
  exact bne_iff_ne.mp hhead hfirst

end Step

instance : Spelling Step where
  text := Step.text
  clear s i _ _ hlast := by
    cases s with
    | assign a => exact Statement.clear a i hlast
    | quit => exact clear_of_startless i (startless_of_all (by decide))
  ends s last hlast := by
    cases s with
    | assign a => exact Statement.ends a hlast
    | quit => exact show isWord ';' = false by decide
  simple s := by
    cases s with
    | assign a => exact Statement.simple a
    | quit => decide
  solid_ne_nil s := by
    cases s with
    | assign a => exact Spelling.solid_ne_nil a
    | quit => decide
  solid_unique {s s' xs ys} h := by
    cases s with
    | assign a =>
      cases s' with
      | assign b =>
        obtain ⟨rfl, hrest⟩ := Spelling.solid_unique (σ := Assignment) h
        exact ⟨rfl, hrest⟩
      | quit => exact absurd h Step.solid_ne_quit
    | quit =>
      cases s' with
      | assign b => exact absurd h.symm Step.solid_ne_quit
      | quit => exact ⟨rfl, List.append_cancel_left h⟩

/-! ### What control comes to, and what the code of a label assigns -/

def assigned (ss : List Step) : List Assignment := ss.filterMap Step.assignment?

/-- The assignments that run from a line on, up to the first `break;` or return. -/
def reached : List (Line Step) → List Assignment
  | [] => []
  | l :: ls =>
    match l.item with
    | .leave | .code .quit => []
    | .code (.assign a) => a :: reached ls
    | .label _ | .fallback => reached ls

/-- The assignments in front of the first `break;`, if there is one. -/
def taken (ls : List (Line Step)) : Option (List Assignment) := (execute ls).map assigned

/-- Control comes to a first part of what stands in front of the `break;`. -/
theorem reached_prefix {ls : List (Line Step)} {as : List Assignment} (h : taken ls = some as) : reached ls <+: as := by
  induction ls generalizing as with
  | nil => exact List.nil_prefix
  | cons l ls ih =>
    obtain ⟨ss, hss, rfl⟩ := Option.map_eq_some_iff.mp h
    rw [execute] at hss
    rw [reached]
    cases hi : l.item with
    | label n | fallback =>
      rw [hi] at hss
      exact ih (Option.map_eq_some_iff.mpr ⟨ss, hss, rfl⟩)
    | leave => exact List.nil_prefix
    | code s =>
      rw [hi] at hss
      obtain ⟨rest, hrest, rfl⟩ := Option.map_eq_some_iff.mp hss
      cases s with
      | quit => exact List.nil_prefix
      | assign a => exact List.cons_prefix_cons.mpr ⟨rfl, ih (Option.map_eq_some_iff.mpr ⟨rest, hrest, rfl⟩)⟩

def assigns (c : Channel) (as : List Assignment) : Bool := as.any fun a => a.target = .channel c

/-- The code behind a return assigns a channel that no assignment in front of the return sets. -/
def overrun (ls : List (Line Step)) : Bool :=
  (taken ls).any fun as => Channel.all.any fun c => assigns c as && !assigns c (reached ls)

theorem overrun_eq_false {ls : List (Line Step)} : overrun ls = false ↔
    ∀ as, taken ls = some as → ∀ c, assigns c as = true → assigns c (reached ls) = true := by
  have hall : ∀ c : Channel, c ∈ Channel.all := fun c => by cases c <;> decide
  rw [overrun]
  cases taken ls with
  | none => simp
  | some as => simp [hall]

theorem isSome_firstTo {v : Variable} {as : List Assignment} : (firstTo v as).isSome = as.any fun a => a.target = v :=
  List.isSome_find? ..

theorem mem_of_firstTo {v : Variable} {as : List Assignment} {a : Assignment} (h : firstTo v as = some a) :
    a ∈ as ∧ a.target = v :=
  ⟨List.mem_of_find?_eq_some h, by simpa using List.find?_some h⟩

/-- What control comes to is first in the code of the label too. -/
theorem firstTo_reached {ls : List (Line Step)} {as : List Assignment} (h : taken ls = some as) {c : Channel}
    (hc : assigns c (reached ls) = true) : firstTo (.channel c) as = firstTo (.channel c) (reached ls) := by
  obtain ⟨rest, rfl⟩ := reached_prefix h
  obtain ⟨a, ha⟩ := Option.isSome_iff_exists.mp (isSome_firstTo.trans hc)
  rw [firstTo, List.find?_append, show List.find? _ (reached ls) = some a from ha, Option.some_or]
  exact ha.symm

/-! ### What the patterns of the channels find -/

theorem keeps_step (v : Variable) : Keeps v.pattern fun s : Step => s.assignment?.bind v.literal? where
  clear_blank := v.keeps.clear_blank
  read?_nil := v.keeps.read?_nil
  clear {s _ _} hlast hpart := by
    cases s with
    | assign a => exact v.keeps.clear hlast hpart
    | quit =>
      have hhead : ∀ v : Variable, v.name.head?.any (fun c => decide (c ∉ Step.quitText)) = true := Variable.of_all (by decide)
      refine v.begins.clear_of_not_mem fun w hw => ?_
      rw [List.mem_singleton.mp hw]
      exact hhead v
  read {s k last} rest hlast hpart := by
    cases s with
    | assign a => exact v.keeps.read rest hlast hpart
    | quit => cases hpart

theorem findSome?_assigned (v : Variable) (ss : List Step) :
    (ss.findSome? fun s => s.assignment?.bind v.literal?) = (assigned ss).findSome? v.literal? := by
  induction ss with
  | nil => rfl
  | cons s ss ih =>
    cases s with
    | quit => exact ih
    | assign a =>
      have hcons : assigned (.assign a :: ss) = a :: assigned ss := rfl
      rw [hcons, List.findSome?_cons, List.findSome?_cons, ih]
      rfl

theorem channels_of_spelled {ss : List Step} {t : List Char} (h : Spelled ss t) (id : Nat) :
    Channels.read ⟨id, t⟩ = .ofGet fun c => (firstTo (.channel c) (assigned ss)).map (·.value) := by
  refine channels_of_group? (fun c => ?_) id
  rw [← findSome?_literal?, ← findSome?_assigned]
  exact (keeps_step (.channel c)).findFrom_eq h rfl 0

/-! ### The records of the groups -/

namespace VariantPass
variable {p : VariantPass} {ls : List (Line Step)} {r : Variant} (hplain : ∀ l ∈ ls, l.item ≠ .fallback)

include hplain

/-- A record has the first assignments in front of the `break;` of its label. -/
theorem channels_of_mem_history (hr : r ∈ p.history ls) : ∃ q ∈ labelled ls, q.1.value = r.id ∧ ∃ as, taken q.2 = some as ∧
    r.channels = .ofGet fun c => (firstTo (.channel c) as).map (·.value) := by
  obtain ⟨g, hg, hr⟩ := List.mem_flatMap.mp hr
  obtain ⟨ss, -, hspelled, hids⟩ := spelled_of_mem_groups hplain hg
  obtain ⟨id, hid, rfl⟩ := List.mem_map.mp hr
  obtain ⟨q, hq, hnumber, hexecute⟩ := hids id hid
  exact ⟨q, hq, hnumber, assigned ss, congrArg (Option.map assigned) hexecute, channels_of_spelled hspelled _⟩

theorem exists_mem_history {q : Numeral maxWord × List (Line Step)} (hq : q ∈ labelled ls) {as : List Assignment}
    (htaken : taken q.2 = some as) (hne : as ≠ []) : ∃ r ∈ p.history ls, r.id = q.1.value := by
  obtain ⟨ss, hexecute, rfl⟩ := Option.map_eq_some_iff.mp htaken
  have hss : ss ≠ [] := by
    rintro rfl
    exact hne rfl
  obtain ⟨g, hg, hid⟩ := exists_group hplain hq hexecute hss
  rw [← p.number_groupRecords (switchText ls) (switchText ls) g] at hid
  obtain ⟨r, hr, hnumber⟩ := List.mem_map.mp hid
  exact ⟨r, List.mem_flatMap.mpr ⟨g, hg, hr⟩, hnumber⟩

end VariantPass

/-! ### The document -/

/-- A record of the document gives the number a value for the channel. -/
def Document.GivesChannel (d : Document) (id : Nat) (c : Channel) (value : Int) : Prop :=
  ∃ rs, d.records = .variants rs ∧ ∃ r ∈ rs, r.id = id ∧ r.channels.get c = some value

theorem Variant.isEmpty_of_channel {r : Variant} {c : Channel} {value : Int} (h : r.channels.get c = some value) :
    SpriteRecord.isEmpty r = false := by
  refine (Variant.isEmpty_eq_false r).mpr (Or.inr (Or.inl ⟨c, ?_⟩))
  rw [h]
  exact Option.some_ne_none value

section Document
variable {kind : DocumentKind} {pass : Pass} {source : Source} {settings : Settings} {ls : List (Line Step)}

/-- A document of one pass has the records of the pass. -/
theorem extract_of_passes (source : Source) (settings : Settings) (hpass : kind.passes = [pass]) :
    ∃ p : VariantPass, p.pass = pass ∧ (Document.extract source settings kind).records = .variants (p.run source settings).1 := by
  cases kind with
  | metadata => cases hpass
  | character => exact ⟨.character, by cases hpass; rfl, rfl⟩
  | animated => exact ⟨.animated, by cases hpass; rfl, rfl⟩

theorem givesChannel_iff (hpass : kind.passes = [pass]) (hname : IsName (settings.functionFor pass).toList)
    (htext : source.text = functionText (settings.functionFor pass) ls) (hplain : ∀ l ∈ ls, l.item ≠ .fallback)
    (hdistinct : ((labelled ls).map (·.1.value)).Nodup) {id : Nat} {c : Channel} {value : Int} :
    (Document.extract source settings kind).GivesChannel id c value ↔ ∃ q ∈ labelled ls, q.1.value = id ∧
      ∃ as, taken q.2 = some as ∧ (firstTo (.channel c) as).map (·.value) = some value := by
  obtain ⟨p, rfl, hrecords⟩ := extract_of_passes source settings hpass
  obtain ⟨l, -, hrun⟩ := VariantPass.run_functionText hname htext
  have hkept : (Document.extract source settings kind).records = .variants (Roster.empty.addAll (p.history ls)).finish := by
    rw [hrecords, hrun]
  have hmem : ∀ r, r ∈ (Roster.empty.addAll (p.history ls)).finish ↔ r ∈ p.history ls ∧ SpriteRecord.isEmpty r = false :=
    Roster.mem_finish_of_nodup (p.nodup_history hdistinct)
  constructor
  · rintro ⟨rs, hrs, r, hr, rfl, hvalue⟩
    obtain rfl := Records.variants.inj (hkept.symm.trans hrs)
    obtain ⟨q, hq, hnumber, as, has, hchannels⟩ := VariantPass.channels_of_mem_history hplain ((hmem r).mp hr).1
    rw [hchannels, Channels.get_ofGet] at hvalue
    exact ⟨q, hq, hnumber, as, has, hvalue⟩
  · rintro ⟨q, hq, rfl, as, has, hvalue⟩
    have hne : as ≠ [] := by
      rintro rfl
      cases hvalue
    obtain ⟨r, hr, hnumber⟩ := VariantPass.exists_mem_history (p := p) hplain hq has hne
    obtain ⟨q', hq', hnumber', as', has', hchannels⟩ := VariantPass.channels_of_mem_history hplain hr
    obtain rfl : q' = q := List.inj_on_of_nodup_map hdistinct hq' hq (hnumber'.trans hnumber)
    obtain rfl : as' = as := Option.some.inj (has'.symm.trans has)
    have hgives : r.channels.get c = some value := by
      rw [hchannels, Channels.get_ofGet]
      exact hvalue
    exact ⟨_, hkept, r, (hmem r).mpr ⟨hr, Variant.isEmpty_of_channel hgives⟩, hnumber, hgives⟩

/-- The channels of a number are the first assignments in front of its `break;`. They are assigned by statements that
    control comes to, whatever the number and the channel, exactly if no label is overrun. -/
theorem channel_sound_iff_not_overrun (hpass : kind.passes = [pass]) (hname : IsName (settings.functionFor pass).toList)
    (htext : source.text = functionText (settings.functionFor pass) ls) (hplain : ∀ l ∈ ls, l.item ≠ .fallback)
    (hdistinct : ((labelled ls).map (·.1.value)).Nodup) :
    let d := Document.extract source settings kind
    (∀ id c value, d.GivesChannel id c value ↔ ∃ q ∈ labelled ls, q.1.value = id ∧
      ∃ as, taken q.2 = some as ∧ (firstTo (.channel c) as).map (·.value) = some value) ∧
    ((∀ id c value, d.GivesChannel id c value → ∃ q ∈ labelled ls, q.1.value = id ∧
        ∃ a ∈ reached q.2, a.target = .channel c ∧ a.value = value) ↔
      ∀ q ∈ labelled ls, overrun q.2 = false) := by
  intro d
  have hgives := fun id c value => @givesChannel_iff kind pass source settings ls hpass hname htext hplain hdistinct id c value
  refine ⟨hgives, fun hsound q hq => overrun_eq_false.mpr fun as has c hc => ?_, fun hover id c value hd => ?_⟩
  · obtain ⟨a, ha⟩ := Option.isSome_iff_exists.mp (isSome_firstTo.trans hc)
    obtain ⟨q', hq', hnumber, b, hb, htarget, -⟩ := hsound q.1.value c a.value
      ((hgives _ _ _).mpr ⟨q, hq, rfl, as, has, by rw [ha]; rfl⟩)
    obtain rfl : q' = q := List.inj_on_of_nodup_map hdistinct hq' hq hnumber
    exact List.any_eq_true.mpr ⟨b, hb, by simpa using htarget⟩
  · obtain ⟨q, hq, hnumber, as, has, hvalue⟩ := (hgives id c value).mp hd
    obtain ⟨a, ha, rfl⟩ := Option.map_eq_some_iff.mp hvalue
    have hassigned : assigns c as = true := by
      rw [assigns, ← isSome_firstTo, ha]
      rfl
    rw [firstTo_reached has (overrun_eq_false.mp (hover q hq) as has c hassigned)] at ha
    obtain ⟨hmem, htarget⟩ := mem_of_firstTo ha
    exact ⟨q, hq, hnumber, a, hmem, htarget, rfl⟩

end Document

/-- A label whose code returns, and behind it a label whose code comes to a `break;`. -/
def returned : List (Line Step) :=
  [.of (.label 1), .of (.code (.assign (.channel .cr (.plain 3)))), .of (.code .quit),
   .of (.label 2), .of (.code (.assign (.channel .cg (.plain 5)))), .of .leave]

def returnedSource : Source := Source.ofString "returned.c"
  "int _trans_asprite(int sprite)\n\x7b\nswitch (sprite) \x7b\ncase 1:\ncr = 3;\nreturn 0;\ncase 2:\ncg = 5;\nbreak;\n\x7d\n\x7d\n"

theorem text_returnedSource : returnedSource.text = functionText "_trans_asprite" returned := by decide +kernel

theorem channel_sound_iff_not_overrun_returned :
    let d := Document.extract returnedSource {} .animated
    returnedSource.text = functionText "_trans_asprite" returned ∧ d.GivesChannel 2 .cg 5 ∧
      ((∀ id c value, d.GivesChannel id c value → ∃ q ∈ labelled returned, q.1.value = id ∧
          ∃ a ∈ reached q.2, a.target = .channel c ∧ a.value = value) ↔ ∀ q ∈ labelled returned, overrun q.2 = false) := by
  intro d
  have hplain : ∀ l ∈ returned, l.item ≠ .fallback := by
    intro l hl
    simp only [returned, List.mem_cons, List.not_mem_nil, or_false] at hl
    rcases hl with rfl | rfl | rfl | rfl | rfl | rfl <;> · intro h; cases h
  obtain ⟨hgives, hsound⟩ := @channel_sound_iff_not_overrun .animated .animated returnedSource {} returned rfl (by decide)
    text_returnedSource hplain (by decide)
  refine ⟨text_returnedSource, (hgives 2 .cg 5).mpr ?_, hsound⟩
  exact ⟨_, List.mem_cons_of_mem _ List.mem_cons_self, rfl, _, rfl, rfl⟩

/-- The first number is given what the code behind its return assigns. -/
theorem channel_assigned_behind_return :
    returnedSource.text = functionText "_trans_asprite" returned ∧
      (Document.extract returnedSource {} .animated).GivesChannel 1 .cg 5 ∧
      ∀ q ∈ labelled returned, q.1.value = 1 → ∀ a ∈ reached q.2, a.target ≠ .channel .cg := by
  have hrecords : (Document.extract returnedSource {} .animated).records = .variants
      [⟨1, some 1, { cr := some 3, cg := some 5 }, {}, none, none, none, none, none⟩,
       ⟨2, some 2, { cg := some 5 }, {}, none, none, none, none, none⟩] := by decide +kernel
  refine ⟨text_returnedSource, ⟨_, hrecords, _, List.mem_cons_self, rfl, rfl⟩, ?_⟩
  decide

end SpriteFacts
