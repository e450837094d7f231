/-
Where one list occurs in another.

The first occurrence of a list, and the last one; a list is cut at a single element into
what is before it and what is behind it.
-/

import Mathlib.Data.List.Infix
import Mathlib.Tactic.Common

namespace Foundation.Occurrence

variable {α : Type} [DecidableEq α]

def indexOf (needle : List α) : List α → Option Nat
  | [] => if needle = [] then some 0 else none
  | c :: rest =>
      if needle <+: c :: rest then some 0 else (indexOf needle rest).map (· + 1)

def lastIndexOf (needle : List α) : List α → Option Nat
  | [] => if needle = [] then some 0 else none
  | c :: rest =>
      match lastIndexOf needle rest with
      | some place => some (place + 1)
      | none => if needle <+: c :: rest then some 0 else none

/-! ### The first occurrence of a list -/

theorem indexOf_eq_some_iff {needle text : List α} {place : Nat} :
    indexOf needle text = some place ↔
      needle <+: text.drop place ∧ ∀ earlier < place, ¬needle <+: text.drop earlier := by
  induction text generalizing place with
  | nil =>
      simp only [indexOf, List.drop_nil, List.prefix_nil]
      by_cases empty : needle = []
      · rw [if_pos empty, Option.some_inj]
        refine ⟨?_, fun first => ?_⟩
        · rintro rfl
          exact ⟨empty, fun earlier below => absurd below (Nat.not_lt_zero _)⟩
        · exact (Nat.eq_zero_of_not_pos fun positive => first.2 0 positive empty).symm
      · rw [if_neg empty]
        exact iff_of_false (fun found => nomatch found) (fun first => empty first.1)
  | cons c rest ih =>
      rw [indexOf]
      by_cases starts : needle <+: c :: rest
      · rw [if_pos starts, Option.some_inj]
        refine ⟨?_, fun first => ?_⟩
        · rintro rfl
          exact ⟨starts, fun earlier below => absurd below (Nat.not_lt_zero _)⟩
        · exact (Nat.eq_zero_of_not_pos fun positive => first.2 0 positive starts).symm
      · rw [if_neg starts, Option.map_eq_some_iff]
        refine ⟨?_, fun ⟨there, first⟩ => ?_⟩
        · rintro ⟨before, found, rfl⟩
          obtain ⟨there, first⟩ := ih.mp found
          refine ⟨there, fun earlier below => ?_⟩
          cases earlier with
          | zero => exact starts
          | succ earlier => exact first earlier (Nat.lt_of_succ_lt_succ below)
        · cases place with
          | zero => exact absurd there starts
          | succ place =>
              exact ⟨place, ih.mpr ⟨there, fun earlier below =>
                first (earlier + 1) (Nat.succ_lt_succ below)⟩, rfl⟩

theorem indexOf_split {needle text : List α} {place : Nat}
    (found : indexOf needle text = some place) :
    ∃ rest, text = text.take place ++ (needle ++ rest) ∧ (text.take place).length = place := by
  obtain ⟨⟨rest, is⟩, first⟩ := indexOf_eq_some_iff.mp found
  refine ⟨rest, by rw [is, List.take_append_drop], ?_⟩
  rw [List.length_take, Nat.min_eq_left]
  by_contra beyond
  apply first text.length (Nat.lt_of_not_le beyond)
  rw [List.drop_eq_nil_of_le (Nat.le_of_lt (Nat.lt_of_not_le beyond))] at is
  rw [(List.append_eq_nil_iff.mp is).1]
  exact List.nil_prefix

theorem indexOf_local {needle before rest other : List α}
    (found : indexOf needle (before ++ (needle ++ rest)) = some before.length) :
    indexOf needle (before ++ (needle ++ other)) = some before.length := by
  obtain ⟨-, first⟩ := indexOf_eq_some_iff.mp found
  refine indexOf_eq_some_iff.mpr ⟨⟨other, by rw [List.drop_left]⟩, fun earlier below starts => ?_⟩
  have inside : earlier ≤ (before ++ needle).length := by
    rw [List.length_append]
    omega
  apply first earlier below
  rw [← List.append_assoc, List.drop_append_of_le_length inside] at starts ⊢
  refine (List.prefix_of_prefix_length_le starts (List.prefix_append _ _) ?_).trans
    (List.prefix_append _ _)
  rw [List.length_drop, List.length_append]
  omega

theorem indexOf_map {needle : List α} {change : α → α}
    (keeps : ∀ c, ∀ d ∈ needle, change c = d ↔ c = d) (text : List α) :
    indexOf needle (text.map change) = indexOf needle text := by
  have starts : ∀ (needle text : List α), (∀ c, ∀ d ∈ needle, change c = d ↔ c = d) →
      (needle <+: text.map change ↔ needle <+: text) := by
    intro needle text keeps
    induction needle generalizing text with
    | nil => exact iff_of_true List.nil_prefix List.nil_prefix
    | cons d needle ih =>
        cases text with
        | nil => rfl
        | cons c text =>
            rw [List.map_cons, List.cons_prefix_cons, List.cons_prefix_cons, eq_comm,
              keeps c d List.mem_cons_self, eq_comm (a := d),
              ih text fun c d there => keeps c d (List.mem_cons_of_mem _ there)]
  induction text with
  | nil => rfl
  | cons c text ih =>
      rw [List.map_cons, indexOf, indexOf, ih, ← List.map_cons]
      exact if_congr (starts needle (c :: text) keeps) rfl rfl

/-! ### A single element -/

theorem indexOf_absent {c : α} {text : List α} (absent : c ∉ text) : indexOf [c] text = none := by
  induction text with
  | nil => rfl
  | cons d text ih =>
      rw [List.mem_cons, not_or] at absent
      rw [indexOf, 
        if_neg (fun starts => absent.1 (List.cons_prefix_cons.mp starts).1), ih absent.2]
      rfl

theorem indexOf_present {c : α} {before : List α} (absent : c ∉ before) (after : List α) :
    indexOf [c] (before ++ c :: after) = some before.length := by
  induction before with
  | nil =>
      rw [List.nil_append, indexOf,
        if_pos (List.cons_prefix_cons.mpr ⟨rfl, List.nil_prefix⟩)]
      rfl
  | cons d before ih =>
      rw [List.mem_cons, not_or] at absent
      rw [List.cons_append, indexOf, 
        if_neg (fun starts => absent.1 (List.cons_prefix_cons.mp starts).1), ih absent.2]
      rfl

theorem lastIndexOf_absent {c : α} {text : List α} (absent : c ∉ text) :
    lastIndexOf [c] text = none := by
  induction text with
  | nil => rfl
  | cons d text ih =>
      rw [List.mem_cons, not_or] at absent
      rw [lastIndexOf, ih absent.2]
      exact if_neg (fun starts => absent.1 (List.cons_prefix_cons.mp starts).1)

theorem lastIndexOf_present {c : α} {after : List α} (absent : c ∉ after) (before : List α) :
    lastIndexOf [c] (before ++ c :: after) = some before.length := by
  induction before with
  | nil =>
      rw [List.nil_append, lastIndexOf, lastIndexOf_absent absent]
      exact if_pos (List.cons_prefix_cons.mpr ⟨rfl, List.nil_prefix⟩)
  | cons d before ih => rw [List.cons_append, lastIndexOf, ih, List.length_cons]

omit [DecidableEq α] in
theorem first_or (marks : α → Prop) [DecidablePred marks] (text : List α) :
    (∀ c ∈ text, ¬marks c) ∨
      ∃ before mark after, text = before ++ mark :: after ∧ marks mark ∧
        ∀ c ∈ before, ¬marks c := by
  induction text with
  | nil => exact .inl fun c there => absurd there List.not_mem_nil
  | cons c text ih =>
      by_cases here : marks c
      · exact .inr ⟨[], c, text, rfl, here, fun d there => absurd there List.not_mem_nil⟩
      · rcases ih with none | ⟨before, mark, after, rfl, is, none⟩
        · exact .inl (List.forall_mem_cons.mpr ⟨here, none⟩)
        · exact .inr ⟨c :: before, mark, after, rfl, is, List.forall_mem_cons.mpr ⟨here, none⟩⟩

theorem last_or (c : α) (text : List α) :
    c ∉ text ∨ ∃ before after, text = before ++ c :: after ∧ c ∉ after := by
  rcases first_or (· = c) text.reverse with none | ⟨before, mark, after, is, rfl, none⟩
  · exact .inl fun there => none c (List.mem_reverse.mpr there) rfl
  · refine .inr ⟨after.reverse, before.reverse, ?_, fun there =>
      none mark (List.mem_reverse.mp there) rfl⟩
    rw [← List.reverse_reverse text, is, List.reverse_append, List.reverse_cons, List.append_assoc,
      List.singleton_append]

end Foundation.Occurrence
