import PackRpc.Proofs.OrderedMap
import PackRpc.Proofs.Static.Typing

namespace PackRpc

namespace StaticValue

/-- Entries with one more among them. -/
def collectNext (done : List (StaticValue × StaticValue)) (e : StaticValue × StaticValue) :
    List (StaticValue × StaticValue) :=
  if done.any fun d => order e.1 d.1 == .eq then
    done.map fun d => if order e.1 d.1 == .eq then (d.1, e.2) else d
  else done ++ [e]

variable {entries others : List (StaticValue × StaticValue)}

theorem collect_distinct (distinct : entries.Pairwise fun a b => order b.1 a.1 ≠ .eq) :
    collect entries = entries := by
  suffices ∀ done : List (StaticValue × StaticValue),
      (done ++ entries).Pairwise (fun a b => order b.1 a.1 ≠ .eq) →
      entries.foldl collectNext done = done ++ entries from
    this [] distinct
  intro done distinct
  clear * - distinct
  induction entries generalizing done with
  | nil => rw [List.foldl_nil, List.append_nil]
  | cons e entries ih =>
      have new : ¬ (done.any fun d => order e.1 d.1 == .eq) = true := by
        rw [List.any_eq_true]
        rintro ⟨d, hd, same⟩
        exact (List.pairwise_append.mp distinct).2.2 d hd e (.head _) (beq_iff_eq.mp same)
      rw [List.foldl_cons, collectNext, if_neg new, ih, List.append_assoc, List.singleton_append]
      rwa [List.append_assoc, List.singleton_append]

theorem collect_forall {P Q : StaticValue → Prop} (h : ∀ e ∈ entries, P e.1 ∧ Q e.2) :
    ∀ e ∈ collect entries, P e.1 ∧ Q e.2 := by
  suffices ∀ done : List (StaticValue × StaticValue), (∀ e ∈ done, P e.1 ∧ Q e.2) →
      ∀ e ∈ entries.foldl collectNext done, P e.1 ∧ Q e.2 from
    this [] fun e he => absurd he List.not_mem_nil
  induction entries with
  | nil => exact fun done inside => inside
  | cons e entries ih =>
      obtain ⟨first, others⟩ := List.forall_mem_cons.mp h
      intro done inside
      rw [List.foldl_cons, collectNext]
      refine ih others _ ?_
      split
      · intro d hd
        obtain ⟨c, hc, rfl⟩ := List.mem_map.mp hd
        split
        · exact ⟨(inside c hc).1, first.2⟩
        · exact inside c hc
      · exact List.forall_mem_append.mpr ⟨inside, List.forall_mem_singleton.mpr first⟩

theorem find?_distinct {f : StaticValue → StaticValue}
    (distinct : entries.Pairwise fun a b => order b.1 a.1 ≠ .eq) {e : StaticValue × StaticValue}
    (he : e ∈ entries) :
    (entries.map fun e => (e.1, f e.2)).find? (fun d => order e.1 d.1 == .eq) = some (e.1, f e.2) := by
  induction entries with
  | nil => cases he
  | cons d entries ih =>
      obtain ⟨first, others⟩ := List.pairwise_cons.mp distinct
      rw [List.map_cons]
      rcases List.mem_cons.mp he with rfl | he
      · exact List.find?_cons_of_pos (by rw [order_self]; rfl)
      · rw [List.find?_cons_of_neg (by simpa using first e he)]
        exact ih others he

/-- Entries agree with others if each of them is found among those with the same value. -/
theorem agree_iff : agree entries others = true ↔
    ∀ e ∈ entries, ∃ d, others.find? (fun d => order e.1 d.1 == .eq) = some d ∧ e.2.same d.2 = true := by
  induction entries with
  | nil => simp [agree]
  | cons e entries ih =>
      rw [agree, List.forall_mem_cons, ← ih]
      split
      · next key value found => simp [found]
      · next missing => simp [missing]

end StaticValue

end PackRpc
