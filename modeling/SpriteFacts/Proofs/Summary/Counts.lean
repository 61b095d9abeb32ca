import Mathlib.Algebra.GroupWithZero.Nat
import Mathlib.Data.List.Forall2
import SpriteFacts.Proofs.Json.RoundTrip
import SpriteFacts.Proofs.Summary.Sorted
import SpriteFacts.Proofs.Text.Numeral
import SpriteFacts.Run.Basic
import SpriteFacts.Summary.Format

/-! The counts of a summary. A run pushes its documents one by one, and the summary counts every diagnostic of every pass
    once. The three forms print the same two counts: they are read back from the JSON form by a reader of JSON, and from
    the last line of the text form and the one line of the quiet form as the numbers written in it. -/

namespace SpriteFacts

open Text

/-- The summary of a run that pushes documents, each with the path that it was written to, if it was. -/
def RunSummary.ofPushes (input : String) (dryRun : Bool) (pushes : List (Document × Option String)) : RunSummary :=
  ⟨input, dryRun, pushes.map fun push => DocumentSummary.ofDocument push.1 push.2⟩

/-- The program summarises its documents in this way. -/
theorem Run.summary_eq_ofPushes (o : Options) (dir : Option String) (documents : List Document) : summary o dir documents =
    .ofPushes o.input o.dryRun (documents.map fun d => (d, dir.map fun dir => outputPath dir d.kind)) := by
  rw [summary, RunSummary.ofPushes, List.map_map]
  rfl

namespace RunSummary

/-- Sorting the diagnostics of a document neither loses one nor doubles one. -/
theorem count_ofPushes (input : String) (dryRun : Bool) (pushes : List (Document × Option String)) (severity : Severity) :
    (ofPushes input dryRun pushes).count severity = ((pushes.flatMap (·.1.phases)).map (·.count severity)).sum := by
  induction pushes with
  | nil => rfl
  | cons push pushes ih =>
    have hpush : (Diagnostic.sort push.1.diagnostics).countP (fun d => decide (d.severity = severity)) =
        (push.1.phases.map (·.count severity)).sum := by
      rw [(Diagnostic.sorted_sort _).perm.countP_eq, Document.diagnostics, List.countP_flatMap]
      rfl
    have hcons : (ofPushes input dryRun (push :: pushes)).count severity =
        (Diagnostic.sort push.1.diagnostics).countP (fun d => decide (d.severity = severity)) +
          (ofPushes input dryRun pushes).count severity := List.countP_append
    rw [hcons, hpush, ih, List.flatMap_cons, List.map_append, List.sum_append]

end RunSummary

/-! ### Numbers in a line -/

/-- The last line of a text in which every line ends in a newline. -/
def lastLine (text : List Char) : List Char := (text.dropLast.reverse.takeWhile (· != '\n')).reverse

/-- The numbers that are written in a line, from left to right. -/
def numbersIn (line : List Char) : List Nat := (line.splitOnP fun c => !c.isDigit).filterMap (digits? Char.isDigit 10)

theorem lastLine_append {front line : List Char} (hfront : ∀ c ∈ front.getLast?, c = '\n') (hline : '\n' ∉ line) :
    lastLine (front ++ (line ++ ['\n'])) = line := by
  have hall : ∀ c ∈ line.reverse, (c != '\n') = true := fun c hc => by
    rw [bne_iff_ne]
    rintro rfl
    exact hline (List.mem_reverse.mp hc)
  rw [lastLine, ← List.append_assoc, List.dropLast_concat, List.reverse_append, List.takeWhile_append_of_pos hall]
  have hnone : front.reverse.takeWhile (· != '\n') = [] := by
    cases hrev : front.reverse with
    | nil => rfl
    | cons c cs =>
      have hlast : c ∈ front.getLast? := by rw [← List.head?_reverse, hrev]; rfl
      rw [hfront c hlast]
      rfl
  rw [hnone, List.append_nil, List.reverse_reverse]

theorem digits?_toDigits (n : Nat) : digits? Char.isDigit 10 (Nat.toDigits 10 n) = some n := by
  have hall : (Nat.toDigits 10 n).all Char.isDigit = true :=
    List.all_eq_true.mpr fun c hc => Nat.isDigit_of_mem_toDigits (by decide) (by decide) hc
  have hne : (Nat.toDigits 10 n).isEmpty = false := List.isEmpty_eq_false_iff.mpr Nat.toDigits_ne_nil
  rw [digits?, hall, hne, valueOf_toDigits]
  rfl

theorem numbersIn_toDigits (n : Nat) {c : Char} (hc : c.isDigit = false) (rest : List Char) :
    numbersIn (Nat.toDigits 10 n ++ c :: rest) = n :: numbersIn rest := by
  have hdigits : ∀ d ∈ Nat.toDigits 10 n, (!d.isDigit) = false := fun d hd => by
    rw [Nat.isDigit_of_mem_toDigits (by decide) (by decide) hd]
    rfl
  rw [numbersIn, List.splitOnP_append_cons_of_forall_mem hdigits c (by rw [hc]; rfl), List.filterMap_cons, digits?_toDigits]
  rfl

theorem numbersIn_append {t : List Char} (ht : t.all (fun c => !c.isDigit) = true) (rest : List Char) :
    numbersIn (t ++ rest) = numbersIn rest := by
  induction t with
  | nil => rfl
  | cons c t ih =>
    rw [List.all_cons, Bool.and_eq_true] at ht
    have hsplit := @List.splitOnP_append_cons_of_forall_mem _ (fun c : Char => !c.isDigit) [] nofun c ht.1 (t ++ rest)
    rw [List.cons_append, numbersIn, ← List.nil_append (c :: (t ++ rest)), hsplit]
    exact ih ht.2

/-! ### The forms -/

section Forms
variable (s : RunSummary)

theorem RunSummary.toList_countLine : s.countLine.toList = Nat.toDigits 10 (s.count .warning) ++
    ' ' :: ((if s.count .warning = 1 then "warning" else "warnings").toList ++
      (", ".toList ++ (Nat.toDigits 10 (s.count .review) ++ ' ' :: "needing review".toList))) := by
  have hrepr : ∀ n : Nat, (toString n).toList = Nat.toDigits 10 n := fun n => Nat.toList_repr
  simp only [countLine, counted, String.toList_append, hrepr, List.append_assoc]
  rfl

/-- The line holds the two counts and no other number. -/
theorem RunSummary.numbersIn_countLine : numbersIn s.countLine.toList = [s.count .warning, s.count .review] := by
  have hword : (if s.count .warning = 1 then "warning" else "warnings").toList.all (fun c => !c.isDigit) = true := by
    split <;> decide
  rw [toList_countLine, numbersIn_toDigits _ (by decide), numbersIn_append hword, numbersIn_append (by decide),
    numbersIn_toDigits _ (by decide)]
  rfl

theorem RunSummary.newline_not_mem_countLine : '\n' ∉ s.countLine.toList := by
  have hdigits : ∀ n : Nat, '\n' ∉ Nat.toDigits 10 n := fun n hmem =>
    absurd (Nat.isDigit_of_mem_toDigits (by decide) (by decide) hmem) (by decide)
  have hword : '\n' ∉ (if s.count .warning = 1 then "warning" else "warnings").toList := by split <;> decide
  simp [toList_countLine, hdigits, hword]

theorem RunSummary.toList_unlines (lines : List String) : (unlines lines).toList = lines.flatMap fun line => line.toList ++ ['\n'] := by
  rw [unlines, String.toList_join, List.flatMap_map]
  simp only [String.toList_append]
  rfl

/-- The last line of lines is the last of them. -/
theorem RunSummary.lastLine_unlines {lines : List String} {line : String} (hline : '\n' ∉ line.toList) :
    lastLine (unlines (lines ++ [line])).toList = line.toList := by
  have hfront : ∀ c ∈ (lines.flatMap fun line => line.toList ++ ['\n']).getLast?, c = '\n' := by
    intro c hc
    rcases List.eq_nil_or_concat lines with rfl | ⟨lines, line, rfl⟩
    · cases hc
    · rw [List.concat_eq_append, List.flatMap_append, List.flatMap_singleton, ← List.append_assoc, List.getLast?_concat] at hc
      exact (Option.some.inj hc).symm
  rw [toList_unlines, List.flatMap_append, List.flatMap_singleton, lastLine_append hfront hline]

/-- Every form of the summary says the two counts. The text form says them on its last line, and the quiet form on its only
    line, if it has one. -/
structure RunSummary.Prints (warnings reviews : Nat) : Prop where
  json : ∃ ms, Json.parse? (s.render .json).toList = some (.obj ms) ∧
    ms.lookup "warning_count" = some (.nat warnings) ∧ ms.lookup "review_count" = some (.nat reviews)
  text : (s.render .text).toList.getLast? = some '\n' ∧ numbersIn (lastLine (s.render .text).toList) = [warnings, reviews]
  quiet : s.render .quiet = "" ∨
    ∃ line, (s.render .quiet).toList = line ++ ['\n'] ∧ '\n' ∉ line ∧ numbersIn line = [warnings, reviews]
  silent : s.render .quiet = "" ↔ warnings = 0 ∧ reviews = 0

theorem RunSummary.prints : s.Prints (s.count .warning) (s.count .review) := by
  have hline : (unlines [s.countLine]).toList = s.countLine.toList ++ ['\n'] := by
    rw [toList_unlines, List.flatMap_singleton]
  have htext : s.render .text = unlines (_ ++ [s.countLine]) := rfl
  have hsome : unlines [s.countLine] ≠ "" := fun hnil => by
    rw [hnil] at hline
    exact absurd hline.symm (List.append_ne_nil_of_right_ne_nil _ (List.cons_ne_nil _ _))
  refine ⟨⟨_, Json.parse?_toText s.toJson, rfl, rfl⟩, ⟨?_, ?_⟩, ?_, ?_⟩
  · rw [htext, toList_unlines, List.flatMap_append, List.flatMap_singleton, ← List.append_assoc, List.getLast?_concat]
  · rw [htext, lastLine_unlines s.newline_not_mem_countLine, s.numbersIn_countLine]
  · rw [render]
    split
    · exact Or.inl rfl
    · exact Or.inr ⟨_, hline, s.newline_not_mem_countLine, s.numbersIn_countLine⟩
  · rw [render]
    split
    · rename_i hzero
      exact iff_of_true rfl hzero
    · rename_i hzero
      exact iff_of_false hsome hzero

end Forms

/-- A summary loses no diagnostic, whatever documents are pushed: each document has its own, in the order of a report, and
    the counts over the summary are those over all passes, and they are what every form of the summary says. -/
theorem summary_of_pushes (input : String) (dryRun : Bool) (pushes : List (Document × Option String)) :
    let s := RunSummary.ofPushes input dryRun pushes
    List.Forall₂ (fun push d => Diagnostic.Sorted push.1.diagnostics d.diagnostics) pushes s.documents ∧
      (∀ severity, s.count severity = ((pushes.flatMap (·.1.phases)).map (·.count severity)).sum) ∧
      s.Prints (s.count .warning) (s.count .review) := by
  refine ⟨?_, RunSummary.count_ofPushes input dryRun pushes, RunSummary.prints _⟩
  rw [RunSummary.ofPushes, List.forall₂_map_right_iff]
  exact List.forall₂_same.mpr fun push _ => Diagnostic.sorted_sort push.1.diagnostics

end SpriteFacts
