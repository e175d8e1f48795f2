import Mathlib.Data.List.Find
import Mathlib.Data.List.Induction

/-! Spans of places in a list: which of them stand apart, and lists with spans replaced. -/

namespace Listing

variable {α β : Type}

/-- A span is kept unless it begins inside of the one that was kept last. -/
def keepSpan (first last : α → Nat) (kept : List α) (span : α) : List α :=
  match kept.getLast? with
  | some other => if first span ≤ last other then kept else kept ++ [span]
  | none => kept ++ [span]

/-- Of spans behind each other, those that are kept. -/
def keepApart (first last : α → Nat) (spans : List α) : List α :=
  spans.foldl (keepSpan first last) []

/-- Whether a place lies in a span. -/
def Within (first last : α → Nat) (place : Nat) (span : α) : Prop :=
  first span ≤ place ∧ place ≤ last span

instance (first last : α → Nat) (place : Nat) (span : α) :
    Decidable (Within first last place span) :=
  inferInstanceAs (Decidable (_ ∧ _))

/-- The first of two spans ends in front of the other one. -/
def Separate (first last : α → Nat) (span other : α) : Prop := last span < first other

/-- A list with one element in the place of each span; its first element stands at a given place. -/
def replaceSpans (first last : α → Nat) (marker : α → β) (spans : List α) :
    Nat → List β → List β
  | _, [] => []
  | place, line :: rest =>
    let others := replaceSpans first last marker spans (place + 1) rest
    match spans.find? fun span => Within first last place span with
    | none => line :: others
    -- Of the places in a span, the first one shows what stands for it.
    | some span => if place = first span then marker span :: others else others

section

variable {first last : α → Nat}

/-- The span at the end is looked at last. -/
theorem keepApart_concat (spans : List α) (span : α) :
    keepApart first last (spans ++ [span]) =
      keepSpan first last (keepApart first last spans) span := by
  rw [keepApart, List.foldl_append]
  rfl

/-- A span is added at the end, behind the one that was kept last, or it is not. -/
theorem keepSpan_cases (kept : List α) (span : α) :
    (keepSpan first last kept span = kept ++ [span] ∧
      ∀ other ∈ kept.getLast?, last other < first span) ∨
    (keepSpan first last kept span = kept ∧
      ∃ other ∈ kept.getLast?, first span ≤ last other) := by
  unfold keepSpan
  -- What happens to the span depends only on the one that was kept last, if there is one.
  cases latest : kept.getLast? with
  | none => exact .inl ⟨rfl, fun other mem => by cases mem⟩
  | some other =>
    by_cases inside : first span ≤ last other
    · exact .inr ⟨if_pos inside, other, rfl, inside⟩
    · refine .inl ⟨if_neg inside, fun another mem => ?_⟩
      cases mem
      exact Nat.lt_of_not_le inside

/-- No span is made up. -/
theorem keepApart_subset {spans : List α} {span : α} (mem : span ∈ keepApart first last spans) :
    span ∈ spans := by
  -- The induction takes the spans in the order in which they are looked at.
  induction spans using List.reverseRecOn with
  | nil => exact mem
  | append_singleton spans latest ih =>
    rw [keepApart_concat] at mem
    rcases keepSpan_cases (keepApart first last spans) latest with ⟨added, -⟩ | ⟨dropped, -⟩
    · rw [added, List.mem_append, List.mem_singleton] at mem
      rw [List.mem_append, List.mem_singleton]
      exact mem.imp ih id
    · rw [dropped] at mem
      exact List.mem_append_left _ (ih mem)

/-- Of spans that stand apart, none ends behind the last one. -/
theorem last_le_getLast {kept : List α} (ordered : ∀ span ∈ kept, first span ≤ last span)
    (apart : kept.Pairwise (Separate first last)) {other span : α} (latest : other ∈ kept.getLast?)
    (mem : span ∈ kept) : last span ≤ last other := by
  obtain ⟨front, rfl⟩ := List.getLast?_eq_some_iff.mp latest
  -- The span is in front of the last one, or it is the last one.
  rcases List.mem_append.mp mem with inside | same
  · have less : last span < first other :=
      (List.pairwise_append.mp apart).2.2 span inside other (List.mem_singleton.mpr rfl)
    exact Nat.le_of_lt (Nat.lt_of_lt_of_le less (ordered other (by simp)))
  · exact Nat.le_of_eq (congrArg last (List.mem_singleton.mp same))

/-- Spans that are kept stand apart. -/
theorem keepApart_pairwise {spans : List α} (ordered : ∀ span ∈ spans, first span ≤ last span) :
    (keepApart first last spans).Pairwise (Separate first last) := by
  induction spans using List.reverseRecOn with
  | nil => exact List.Pairwise.nil
  | append_singleton spans latest ih =>
    have earlier := ih fun span mem => ordered span (List.mem_append_left _ mem)
    rw [keepApart_concat]
    rcases keepSpan_cases (keepApart first last spans) latest with ⟨added, behind⟩ | ⟨dropped, -⟩
    · rw [added, List.pairwise_append]
      refine ⟨earlier, List.pairwise_singleton _ _, fun span mem other single => ?_⟩
      rw [List.mem_singleton.mp single]
      -- No other span ends behind the one that was kept last, which ends in front of the new one.
      cases final : (keepApart first last spans).getLast? with
      | none => rw [List.getLast?_eq_none_iff.mp final] at mem; cases mem
      | some other =>
        have before := last_le_getLast (fun span mem =>
          ordered span (List.mem_append_left _ (keepApart_subset mem))) earlier final mem
        exact Nat.lt_of_le_of_lt before (behind other final)
    · rw [dropped]
      exact earlier

/-- Of spans in the order of their beginnings, one that is dropped begins inside of a kept one. -/
theorem keepApart_covers {spans : List α}
    (sorted : spans.Pairwise fun span other => first span ≤ first other) {span : α}
    (mem : span ∈ spans) :
    span ∈ keepApart first last spans ∨
      ∃ kept ∈ keepApart first last spans, Within first last (first span) kept := by
  -- The span that is looked at last is new; for the others, the claim held before.
  induction spans using List.reverseRecOn with
  | nil => cases mem
  | append_singleton spans latest ih =>
    obtain ⟨earlier, -, before⟩ := List.pairwise_append.mp sorted
    rw [keepApart_concat]
    rcases keepSpan_cases (keepApart first last spans) latest with
      ⟨added, -⟩ | ⟨dropped, other, final, inside⟩
    · rw [added]
      rcases List.mem_append.mp mem with mem | same
      · -- What was kept before still is.
        refine (ih earlier mem).imp (List.mem_append_left _) fun covered => ?_
        obtain ⟨kept, there, within⟩ := covered
        exact ⟨kept, List.mem_append_left _ there, within⟩
      · exact .inl (List.mem_append_right _ same)
    · rw [dropped]
      rcases List.mem_append.mp mem with mem | same
      · exact ih earlier mem
      · -- The span begins behind the beginning of the one that was kept last, by the order.
        rw [List.mem_singleton.mp same]
        have there := List.mem_of_getLast? final
        have order := before other (keepApart_subset there) latest (List.mem_singleton.mpr rfl)
        exact .inr ⟨other, there, order, inside⟩

/-- Of spans that stand apart, one that has a place is the one that is found at it. -/
theorem find?_within {spans : List α} (apart : spans.Pairwise (Separate first last)) {span : α}
    (mem : span ∈ spans) {place : Nat} (within : Within first last place span) :
    spans.find? (fun span => Within first last place span) = some span := by
  -- The search passes the spans in front of the one that has the place.
  induction spans with
  | nil => cases mem
  | cons head rest ih =>
    obtain ⟨before, others⟩ := List.pairwise_cons.mp apart
    rcases List.mem_cons.mp mem with rfl | mem
    · exact List.find?_cons_of_pos (decide_eq_true within)
    · -- The first span ends in front of the one that has the place.
      have less : last head < first span := before span mem
      have passed : ¬ Within first last place head := fun inside =>
        absurd (Nat.lt_of_le_of_lt inside.2 (Nat.lt_of_lt_of_le less within.1)) (Nat.lt_irrefl _)
      rw [List.find?_cons_of_neg (by simpa using passed)]
      exact ih others mem

section

variable {marker : α → β} {spans : List α}

/-- An element that lies in no span stays. -/
theorem replaceSpans_outside {place : Nat} (outside : ∀ span ∈ spans, ¬ Within first last place span)
    (line : β) (rest : List β) :
    replaceSpans first last marker spans place (line :: rest) =
      line :: replaceSpans first last marker spans (place + 1) rest := by
  have none_ : (spans.find? fun span => Within first last place span) = none := by
    simpa [List.find?_eq_none] using outside
  rw [replaceSpans, none_]

/-- Behind the first place of a span, nothing is left of it. -/
theorem replaceSpans_inside (apart : spans.Pairwise (Separate first last)) {span : α}
    (mem : span ∈ spans) (count : Nat) {place : Nat} (behind : first span < place)
    (ends : place + count = last span + 1) (lines : List β) :
    replaceSpans first last marker spans place lines =
      replaceSpans first last marker spans (last span + 1) (lines.drop count) := by
  -- The induction goes through the places that are left of the span.
  induction count generalizing place lines with
  | zero => rw [← ends, Nat.add_zero, List.drop_zero]
  | succ count ih =>
    cases lines with
    | nil => simp [replaceSpans]
    | cons line rest =>
      have within : Within first last place span := ⟨Nat.le_of_lt behind, by omega⟩
      rw [replaceSpans, find?_within apart mem within, List.drop_succ_cons]
      simp only [if_neg (Nat.ne_of_gt behind)]
      exact ih (by omega) (by omega) rest

/-- A span becomes one element. -/
theorem replaceSpans_span (apart : spans.Pairwise (Separate first last)) {span : α}
    (mem : span ∈ spans) (ordered : first span ≤ last span) (line : β) (rest : List β) :
    replaceSpans first last marker spans (first span) (line :: rest) =
      marker span ::
        replaceSpans first last marker spans (last span + 1) (rest.drop (last span - first span)) := by
  have within : Within first last (first span) span := ⟨Nat.le_refl _, ordered⟩
  -- At the first place of the span its element is shown, and the places behind it are passed.
  rw [replaceSpans, find?_within apart mem within]
  simp only [if_true]
  rw [replaceSpans_inside apart mem (last span - first span) (Nat.lt_succ_self _) (by omega)]

/-- Without spans, nothing is replaced. -/
theorem replaceSpans_nil (place : Nat) (lines : List β) :
    replaceSpans first last marker [] place lines = lines := by
  -- No place lies in any span.
  induction lines generalizing place with
  | nil => rfl
  | cons line rest ih => rw [replaceSpans_outside (fun span mem => by cases mem), ih]

end

end

end Listing
