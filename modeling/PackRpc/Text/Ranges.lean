/-!
# Ranges of characters

A property of characters is a table of closed ranges of code points, ascending and apart, and looking a
character up halves the table until one range is left. The tables of this library are those of
Unicode 17.
-/
namespace PackRpc.Text

/-- Whether ranges are ascending and apart. -/
def isAscending : List (Nat × Nat) → Bool
  | [] => true
  | [r] => r.1 ≤ r.2
  | r :: s :: rest => r.1 ≤ r.2 && r.2 + 1 < s.1 && isAscending (s :: rest)

structure Ranges where
  table : Array (Nat × Nat)
  ascending : isAscending table.toList = true

namespace Ranges

/-- Whether one of the ranges from position `low` up to `high` holds the code point. -/
def search (ranges : Ranges) (code low high : Nat) : (fuel : Nat) → Bool
  | 0 => false
  | fuel + 1 =>
    if low < high then
      let middle := (low + high) / 2
      let (first, last) := ranges.table.getD middle (0, 0)
      if code < first then search ranges code low middle fuel
      else if last < code then search ranges code (middle + 1) high fuel
      else true
    else false

/-- Whether one of the ranges holds the character. A table is halved less often than it is long. -/
def holds (ranges : Ranges) (c : Char) : Bool :=
  ranges.search c.toNat 0 ranges.table.size ranges.table.size

/-! ## Looking up is membership -/

theorem apart_of_isAscending {rs : List (Nat × Nat)} (h : isAscending rs = true) :
    rs.Pairwise (fun r s => r.2 < s.1) ∧ ∀ r ∈ rs, r.1 ≤ r.2 := by
  induction rs with
  | nil => exact ⟨.nil, fun r none => by cases none⟩
  | cons r rest ih =>
      cases rest with
      | nil =>
          refine ⟨List.pairwise_singleton _ r, fun x same => ?_⟩
          rw [List.mem_singleton.mp same]
          exact of_decide_eq_true h
      | cons s rest =>
          simp only [isAscending, Bool.and_eq_true, decide_eq_true_eq] at h
          obtain ⟨⟨ordered, gap⟩, others⟩ := h
          obtain ⟨apart, all⟩ := ih others
          have beyond : ∀ x ∈ s :: rest, s.1 ≤ x.1 := by
            intro x member
            obtain rfl | later := List.mem_cons.mp member
            · exact Nat.le_refl _
            · have := List.rel_of_pairwise_cons apart later
              have := all s List.mem_cons_self
              omega
          refine ⟨.cons (fun x member => ?_) apart, List.forall_mem_cons.mpr ⟨ordered, all⟩⟩
          have := beyond x member
          omega

variable (ranges : Ranges)

theorem ordered {i : Nat} (h : i < ranges.table.size) : (ranges.table[i]).1 ≤ (ranges.table[i]).2 :=
  (apart_of_isAscending ranges.ascending).2 _ (Array.getElem_mem_toList h)

theorem apart {i j : Nat} (less : i < j) (h : j < ranges.table.size) :
    (ranges.table[i]).2 < (ranges.table[j]).1 :=
  List.pairwise_iff_getElem.mp (apart_of_isAscending ranges.ascending).1 i j _ _ less

theorem first_le {i j : Nat} (le : i ≤ j) (h : j < ranges.table.size) :
    (ranges.table[i]).1 ≤ (ranges.table[j]).1 := by
  obtain rfl | less := Nat.eq_or_lt_of_le le
  · exact Nat.le_refl _
  · have := ranges.ordered (Nat.lt_trans less h)
    have := ranges.apart less h
    omega

theorem last_le {i j : Nat} (le : i ≤ j) (h : j < ranges.table.size) :
    (ranges.table[i]).2 ≤ (ranges.table[j]).2 := by
  obtain rfl | less := Nat.eq_or_lt_of_le le
  · exact Nat.le_refl _
  · have := ranges.apart less h
    have := ranges.ordered h
    omega

/-- What is sought stays between the two positions, which come closer in every step. -/
theorem search_eq_true {code low high fuel : Nat} (inside : high ≤ ranges.table.size)
    (enough : high - low ≤ fuel) :
    ranges.search code low high fuel = true ↔ ∃ (i : Nat) (h : i < ranges.table.size), low ≤ i ∧ i < high ∧
      (ranges.table[i]).1 ≤ code ∧ code ≤ (ranges.table[i]).2 := by
  induction fuel generalizing low high with
  | zero =>
      refine iff_of_false Bool.false_ne_true ?_
      rintro ⟨i, -, above, below, -⟩
      omega
  | succ fuel ih =>
      rw [search]
      by_cases more : low < high
      · generalize middle : (low + high) / 2 = m
        have known : m < ranges.table.size := by omega
        have found : ranges.table.getD m (0, 0) = ranges.table[m] := by
          rw [Array.getD_eq_getD_getElem?, Array.getElem?_eq_getElem known, Option.getD_some]
        simp only [if_pos more, found]
        by_cases before : code < (ranges.table[m]).1
        · rw [if_pos before, ih (by omega) (by omega)]
          refine exists_congr fun i => exists_congr fun h => ?_
          have : i < m ∨ (ranges.table[m]).1 ≤ (ranges.table[i]).1 :=
            (Nat.lt_or_ge i m).imp_right fun le => ranges.first_le le h
          omega
        · by_cases after : (ranges.table[m]).2 < code
          · rw [if_neg before, if_pos after, ih inside (by omega)]
            refine exists_congr fun i => exists_congr fun h => ?_
            have : m < i ∨ (ranges.table[i]).2 ≤ (ranges.table[m]).2 :=
              (Nat.lt_or_ge m i).imp_right fun le => ranges.last_le le known
            omega
          · rw [if_neg before, if_neg after]
            exact iff_of_true rfl ⟨m, known, by omega, by omega, by omega, by omega⟩
      · rw [if_neg more]
        refine iff_of_false Bool.false_ne_true ?_
        rintro ⟨i, -, above, below, -⟩
        omega

theorem holds_eq_true {c : Char} :
    ranges.holds c = true ↔ ∃ r ∈ ranges.table, r.1 ≤ c.toNat ∧ c.toNat ≤ r.2 := by
  rw [holds, search_eq_true ranges (Nat.le_refl _) (Nat.sub_le _ _)]
  constructor
  · rintro ⟨i, h, -, -, covers⟩
    exact ⟨ranges.table[i], Array.getElem_mem h, covers⟩
  · rintro ⟨r, member, covers⟩
    obtain ⟨i, h, rfl⟩ := Array.getElem_of_mem member
    exact ⟨i, h, Nat.zero_le i, h, covers⟩

end Ranges

end PackRpc.Text
