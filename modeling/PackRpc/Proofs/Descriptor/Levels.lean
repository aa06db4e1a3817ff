import PackRpc.Descriptor.Basic

namespace PackRpc.Descriptor

/-- Induction over a descriptor, after the descriptors it is built from. -/
@[elab_as_elim]
theorem induction {motive : Descriptor → Prop} (bool : motive .bool)
    (int : ∀ signed width, motive (.int signed width)) (float : motive .float)
    (string : motive .string) (raw : motive .raw)
    (tuple : ∀ items, (∀ d ∈ items, motive d) → motive (.tuple items))
    (record : ∀ name fields, (∀ d ∈ fields.map Prod.snd, motive d) → motive (.record name fields))
    (nullable : ∀ inner, motive inner → motive (.nullable inner))
    (list : ∀ element, motive element → motive (.list element))
    (map : ∀ key value, motive key → motive value → motive (.map key value))
    (object : motive .object) (unit : motive .unit) (d : Descriptor) : motive d := by
  refine @Descriptor.rec motive (fun items => ∀ d ∈ items, motive d)
    (fun fields => ∀ d ∈ fields.map Prod.snd, motive d) (fun field => motive field.2)
    bool int float string raw tuple record nullable list map object unit ?_ ?_ ?_ ?_ ?_ d
  · exact List.forall_mem_nil motive
  · exact fun d items hd hitems => List.forall_mem_cons.mpr ⟨hd, hitems⟩
  · exact List.forall_mem_nil motive
  · exact fun field fields hfield hfields => List.forall_mem_cons.mpr ⟨hfield, hfields⟩
  · exact fun name d hd => hd

mutual

/-- Whether something holds of a descriptor and of every descriptor that it is built from. -/
def all (p : Descriptor → Bool) : Descriptor → Bool
  | .tuple items => p (.tuple items) && allItems p items
  | .record name fields => p (.record name fields) && allFields p fields
  | .nullable inner => p (.nullable inner) && all p inner
  | .list element => p (.list element) && all p element
  | .map key value => p (.map key value) && (all p key && all p value)
  | d => p d

def allItems (p : Descriptor → Bool) : List Descriptor → Bool
  | [] => true
  | d :: ds => all p d && allItems p ds

def allFields (p : Descriptor → Bool) : List (String × Descriptor) → Bool
  | [] => true
  | (_, d) :: fields => all p d && allFields p fields

end

section
variable {p : Descriptor → Bool} {inner element key value : Descriptor} {name : String}
  {items : List Descriptor} {fields : List (String × Descriptor)}

theorem all_tuple : (tuple items).all p = true ↔ p (.tuple items) = true ∧ ∀ d ∈ items, d.all p = true := by
  have inside : allItems p items = true ↔ ∀ d ∈ items, d.all p = true := by
    induction items with
    | nil => simp [allItems]
    | cons d items ih => simp [allItems, ih]
  rw [all, Bool.and_eq_true, inside]

theorem all_record : (record name fields).all p = true ↔
    p (.record name fields) = true ∧ ∀ d ∈ fields.map Prod.snd, d.all p = true := by
  have inside : allFields p fields = true ↔ ∀ d ∈ fields.map Prod.snd, d.all p = true := by
    induction fields with
    | nil => simp [allFields]
    | cons field fields ih => simp [allFields, ih]
  rw [all, Bool.and_eq_true, inside]

theorem all_nullable : (nullable inner).all p = true ↔ p (.nullable inner) = true ∧ inner.all p = true := by
  rw [all, Bool.and_eq_true]

theorem all_list : (list element).all p = true ↔ p (.list element) = true ∧ element.all p = true := by
  rw [all, Bool.and_eq_true]

theorem all_map : (map key value).all p = true ↔
    p (.map key value) = true ∧ key.all p = true ∧ value.all p = true := by
  rw [all, Bool.and_eq_true, Bool.and_eq_true]

end

end PackRpc.Descriptor
