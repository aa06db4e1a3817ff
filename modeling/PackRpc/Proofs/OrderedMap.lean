import PackRpc.OrderedMap
import Mathlib.Data.List.Dedup
import Mathlib.Data.List.Induction
import Mathlib.Data.List.Perm.Basic
/-!
# Entries of ordered maps

What entries become when they are inserted one after another: those that are listed in order stay as they
are listed, those whose keys differ are put in order without loss, and of those with one key the last one
stays.
-/
namespace PackRpc.OrderedMap

variable {κ α : Type} [Ord κ] {key : κ} {value : α} {e : κ × α} {entries : List (κ × α)}

theorem place_last (greater : ∀ e ∈ entries, compare key e.1 = .gt) :
    place key value entries = entries ++ [(key, value)] := by
  induction entries with
  | nil => rfl
  | cons e entries ih =>
      obtain ⟨first, others⟩ := List.forall_mem_cons.mp greater
      rw [place, first, List.cons_append]
      exact congrArg (e :: ·) (ih others)

theorem mem_place (h : e ∈ place key value entries) : e = (key, value) ∨ e ∈ entries := by
  induction entries with
  | nil => exact .inl (List.mem_singleton.mp h)
  | cons d entries ih =>
      rw [place] at h
      split at h
      · exact List.mem_cons.mp h
      · exact (List.mem_cons.mp h).imp id (List.mem_cons_of_mem d)
      · rcases List.mem_cons.mp h with rfl | h
        · exact .inr (.head _)
        · exact (ih h).imp id (List.mem_cons_of_mem d)

/-- What is listed in order is inserted as it is listed. -/
theorem ofList_sorted (sorted : entries.Pairwise fun a b => compare b.1 a.1 = .gt) :
    (ofList entries).entries = entries := by
  -- The map so far is in order together with what is still to be inserted.
  suffices ∀ done : OrderedMap κ α, (done.entries ++ entries).Pairwise (fun a b => compare b.1 a.1 = .gt) →
      (entries.foldl (fun m e => m.insert e.1 e.2) done).entries = done.entries ++ entries from
    this empty sorted
  intro done sorted
  clear * - sorted
  induction entries generalizing done with
  | nil => rw [List.foldl_nil, List.append_nil]
  | cons e entries ih =>
      have last : (done.insert e.1 e.2).entries = done.entries ++ [e] :=
        place_last fun d hd => (List.pairwise_append.mp sorted).2.2 d hd e (.head _)
      have split : done.entries ++ e :: entries = (done.insert e.1 e.2).entries ++ entries := by
        rw [last, List.append_assoc, List.singleton_append]
      rw [List.foldl_cons, split]
      exact ih _ (split ▸ sorted)

theorem mem_ofList (h : e ∈ (ofList entries).entries) : e ∈ entries := by
  suffices ∀ done : OrderedMap κ α, e ∈ (entries.foldl (fun m e => m.insert e.1 e.2) done).entries →
      e ∈ done.entries ∨ e ∈ entries from
    (this empty h).resolve_left List.not_mem_nil
  intro done h
  clear * - h
  induction entries generalizing done with
  | nil => exact .inl h
  | cons d entries ih =>
      rcases ih (done.insert d.1 d.2) h with before | after
      · rcases mem_place before with rfl | before
        · exact .inr (.head _)
        · exact .inl before
      · exact .inr (.tail _ after)

def Ascending (entries : List (κ × α)) : Prop := entries.Pairwise fun a b => compare a.1 b.1 = .lt

instance (entries : List (κ × α)) : Decidable (Ascending entries) :=
  inferInstanceAs (Decidable (entries.Pairwise fun a b => compare a.1 b.1 = .lt))

theorem Ascending.nodup [Std.ReflOrd κ] (h : Ascending entries) : (entries.map Prod.fst).Nodup := by
  rw [List.Nodup, List.pairwise_map]
  refine h.imp fun {a b} below same => ?_
  rw [same, Std.ReflOrd.compare_self] at below
  cases below

theorem place_ascending [Std.TransOrd κ] [Std.LawfulEqOrd κ] (h : Ascending entries) :
    Ascending (place key value entries) := by
  induction entries with
  | nil => exact List.pairwise_singleton _ _
  | cons e entries ih =>
      obtain ⟨first, others⟩ := List.pairwise_cons.mp h
      rw [place]
      split
      · next before =>
        refine List.pairwise_cons.mpr ⟨List.forall_mem_cons.mpr ⟨before, fun d hd => ?_⟩, h⟩
        exact Std.TransCmp.lt_trans before (first d hd)
      · next same =>
        rw [Std.LawfulEqOrd.eq_of_compare same]
        exact List.pairwise_cons.mpr ⟨first, others⟩
      · next behind =>
        refine List.pairwise_cons.mpr ⟨fun d hd => ?_, ih others⟩
        rcases mem_place hd with rfl | hd
        · exact Std.OrientedCmp.lt_of_gt behind
        · exact first d hd

/-- Whatever is inserted, the keys are listed in order. -/
theorem ascending_ofList [Std.TransOrd κ] [Std.LawfulEqOrd κ] (entries : List (κ × α)) :
    Ascending (ofList entries).entries := by
  suffices ∀ done : OrderedMap κ α, Ascending done.entries →
      Ascending (entries.foldl (fun m e => m.insert e.1 e.2) done).entries from
    this empty .nil
  intro done ascending
  induction entries generalizing done with
  | nil => exact ascending
  | cons e entries ih => exact ih _ (place_ascending ascending)

theorem ofList_ascending [Std.OrientedOrd κ] (h : Ascending entries) : (ofList entries).entries = entries :=
  ofList_sorted (h.imp Std.OrientedCmp.gt_of_lt)

theorem place_perm [Std.LawfulEqOrd κ] (new : key ∉ entries.map Prod.fst) :
    (place key value entries).Perm ((key, value) :: entries) := by
  induction entries with
  | nil => exact .refl _
  | cons e entries ih =>
      obtain ⟨other, others⟩ := List.ne_and_not_mem_of_not_mem_cons new
      rw [place]
      split
      · exact .refl _
      · next same => exact absurd (Std.LawfulEqOrd.eq_of_compare same) other
      · exact ((ih others).cons e).trans (.swap _ _ _)

/-- Entries whose keys differ are all kept. -/
theorem ofList_perm [Std.LawfulEqOrd κ] (distinct : (entries.map Prod.fst).Nodup) :
    (ofList entries).entries.Perm entries := by
  -- The keys of the map so far differ from those that are still to be inserted.
  suffices ∀ done : OrderedMap κ α, ((done.entries ++ entries).map Prod.fst).Nodup →
      (entries.foldl (fun m e => m.insert e.1 e.2) done).entries.Perm (done.entries ++ entries) from
    this empty distinct
  intro done distinct
  clear * - distinct
  induction entries generalizing done with
  | nil => rw [List.foldl_nil, List.append_nil]
  | cons e entries ih =>
      have new : e.1 ∉ done.entries.map Prod.fst := by
        rw [List.map_append, List.map_cons] at distinct
        exact fun listed => (List.nodup_append.mp distinct).2.2 _ listed _ (.head _) rfl
      have step : ((done.insert e.1 e.2).entries ++ entries).Perm (done.entries ++ e :: entries) :=
        ((place_perm new).append_right entries).trans List.perm_middle.symm
      rw [List.foldl_cons]
      exact (ih _ ((step.map Prod.fst).nodup_iff.mpr distinct)).trans step

section
variable [DecidableEq κ] [Std.LawfulEqOrd κ]

theorem find_eq (key : κ) (entries : List (κ × α)) :
    find key entries = (entries.find? fun e => e.1 = key).map Prod.snd := by
  induction entries with
  | nil => rfl
  | cons e entries ih =>
      by_cases same : e.1 = key
      · simp [find, same]
      · simp [find, same, ih, Ne.symm same]

/-- What is found is in the first entry with the key. -/
theorem find_eq_some_iff : find key entries = some value ↔
    ∃ before after, entries = before ++ (key, value) :: after ∧ ∀ d ∈ before, d.1 ≠ key := by
  simp only [find_eq, Option.map_eq_some_iff, List.find?_eq_some_iff_append, decide_eq_true_eq,
    Bool.not_eq_true', decide_eq_false_iff_not]
  constructor
  · rintro ⟨e, ⟨rfl, before, after, split, others⟩, rfl⟩
    exact ⟨before, after, split, others⟩
  · rintro ⟨before, after, split, others⟩
    exact ⟨(key, value), ⟨rfl, before, after, split, others⟩, rfl⟩

theorem find_eq_none_iff : find key entries = none ↔ key ∉ entries.map Prod.fst := by
  simp only [find_eq, Option.map_eq_none_iff, List.find?_eq_none, decide_eq_true_eq, List.mem_map, not_exists,
    not_and]

theorem mem_iff_find (distinct : (entries.map Prod.fst).Nodup) :
    (key, value) ∈ entries ↔ find key entries = some value := by
  rw [find_eq_some_iff]
  constructor
  · intro member
    obtain ⟨before, after, rfl⟩ := List.append_of_mem member
    refine ⟨before, after, rfl, fun d hd same => ?_⟩
    rw [List.map_append, List.map_cons] at distinct
    exact (List.nodup_append.mp distinct).2.2 _ (List.mem_map_of_mem hd) _ (.head _) same
  · rintro ⟨before, after, rfl, -⟩
    exact List.mem_append_right _ (.head _)

/-- What is found after insertions is what was inserted last. -/
theorem find_ofList (key : κ) (entries : List (κ × α)) :
    find key (ofList entries).entries = find key entries.reverse := by
  induction entries using List.reverseRecOn with
  | nil => rfl
  | append_singleton entries e ih =>
      have last : ofList (entries ++ [e]) = (ofList entries).insert e.1 e.2 := List.foldl_concat ..
      rw [last, List.reverse_concat, find, ← ih]
      by_cases same : key = e.1
      · rw [same, if_pos Std.ReflOrd.compare_self]
        exact get?_insert_self _ _ _
      · rw [if_neg (mt Std.LawfulEqOrd.eq_of_compare same)]
        exact get?_insert_of_ne _ same _

variable [Std.TransOrd κ]

/-- Of the entries with one key the last one is listed. -/
theorem mem_ofList_iff : (key, value) ∈ (ofList entries).entries ↔
    ∃ before after, entries = before ++ (key, value) :: after ∧ ∀ d ∈ after, d.1 ≠ key := by
  rw [mem_iff_find (ascending_ofList entries).nodup, find_ofList, find_eq_some_iff]
  constructor
  · rintro ⟨before, after, split, others⟩
    refine ⟨after.reverse, before.reverse, ?_, fun d hd => others d (List.mem_reverse.mp hd)⟩
    rw [List.reverse_eq_iff.mp split]
    simp
  · rintro ⟨before, after, rfl, others⟩
    refine ⟨after.reverse, before.reverse, ?_, fun d hd => others d (List.mem_reverse.mp hd)⟩
    simp

theorem keys_ofList (entries : List (κ × α)) :
    ((ofList entries).entries.map Prod.fst).Perm (entries.map Prod.fst).dedup := by
  refine (List.perm_ext_iff_of_nodup (ascending_ofList entries).nodup (List.nodup_dedup _)).mpr fun key => ?_
  rw [List.mem_dedup, ← not_iff_not, ← find_eq_none_iff, find_ofList, find_eq_none_iff, List.map_reverse,
    List.mem_reverse]

end

end PackRpc.OrderedMap
