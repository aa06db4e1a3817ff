import PackRpc.Json.Parsing
import PackRpc.Proofs.Descriptor.RoundTrip
import PackRpc.Proofs.OrderedMap

namespace PackRpc.Json

mutual

/-- Whether something holds of a JSON value and of every value that it contains. -/
def all (p : Json → Bool) : Json → Bool
  | .array items => p (.array items) && allItems p items
  | .object members => p (.object members) && allMembers p members
  | j => p j

def allItems (p : Json → Bool) : List Json → Bool
  | [] => true
  | item :: items => all p item && allItems p items

def allMembers (p : Json → Bool) : List (String × Json) → Bool
  | [] => true
  | (_, item) :: members => all p item && allMembers p members

end

/-- Whether the members of every object are listed by name. -/
def isListed (j : Json) : Bool :=
  j.all fun
    | .object members => decide (OrderedMap.Ascending members)
    | _ => true

section
variable {p : Json → Bool} {items : List Json} {members : List (String × Json)}

theorem all_array : (Json.array items).all p = true ↔
    p (.array items) = true ∧ ∀ j ∈ items, j.all p = true := by
  have inside : allItems p items = true ↔ ∀ j ∈ items, j.all p = true := by
    induction items with
    | nil => simp [allItems]
    | cons item items ih => simp [allItems, ih]
  rw [all, Bool.and_eq_true, inside]

theorem all_object : (Json.object members).all p = true ↔
    p (.object members) = true ∧ ∀ m ∈ members, m.2.all p = true := by
  have inside : allMembers p members = true ↔ ∀ m ∈ members, m.2.all p = true := by
    induction members with
    | nil => simp [allMembers]
    | cons m members ih => simp [allMembers, ih]
  rw [all, Bool.and_eq_true, inside]

end

def Reads {α : Type} (P : α → Prop) (r : Except JsonError (α × List Char)) : Prop :=
  ∀ a rest, r = .ok (a, rest) → P a

section
variable {α β : Type} {P : α → Prop} {Q : β → Prop} {r : Except JsonError (α × List Char)}

theorem Reads.ok {a : α} (h : P a) (rest : List Char) : Reads P (.ok (a, rest)) := by
  intro b rest' read
  cases read
  exact h

theorem Reads.error (e : JsonError) : Reads P (.error e) := by
  intro a rest read
  cases read

theorem Reads.map (h : Reads P r) (f : α → β) (next : List Char → List Char) (image : ∀ a, P a → Q (f a)) :
    Reads Q (r.map fun x => (f x.1, next x.2)) := by
  intro b rest read
  obtain ⟨x, first, form⟩ := Except.map_eq_ok.mp read
  cases form
  exact image x.1 (h x.1 x.2 first)

theorem Reads.trivial (r : Except JsonError (α × List Char)) : Reads (fun _ => True) r :=
  fun _ _ _ => True.intro

end

def Listed (j : Json) : Prop := j.isListed = true

theorem word_listed {result : Json} (h : result.Listed) (ws cs : List Char) :
    Reads Listed (word ws result cs) := by
  induction ws generalizing cs with
  | nil => exact .ok h cs
  | cons w ws ih =>
      cases cs with
      | nil => exact .error _
      | cons c cs =>
          rw [word]
          split
          · exact ih cs
          · exact .error _

theorem whole_listed (negative : Bool) (word : Nat) : (whole negative word).Listed := by
  unfold whole
  split_ifs <;> rfl

theorem afterDigits_listed (negative zero : Bool) (word : Nat) (cs : List Char) :
    Reads Listed (afterDigits negative zero word cs) := by
  have float : ∀ r : Except JsonError (Binary64 × List Char),
      Reads Listed (r.map fun x => (.float x.1, x.2)) := fun r =>
    (Reads.trivial r).map Json.float id fun _ _ => rfl
  unfold afterDigits
  split
  · exact .ok (whole_listed _ _) _
  · split
    · split
      · exact .error _
      · exact float _
    · split
      · exact float _
      · exact .ok (whole_listed _ _) _

theorem number_listed (negative : Bool) (cs : List Char) : Reads Listed (number negative cs) := by
  unfold number
  split
  · exact .error _
  · split
    · exact .error _
    · split <;> exact afterDigits_listed _ _ _ _

theorem scalar_listed (cs : List Char) : Reads Listed (scalar cs) := by
  unfold scalar
  split
  · exact word_listed (by rfl) _ _
  · exact word_listed (by rfl) _ _
  · exact word_listed (by rfl) _ _
  · exact number_listed true _
  · exact (Reads.trivial _).map Json.string id fun _ _ => rfl
  · split
    · exact number_listed false _
    · exact .error _
  · exact .error _

variable {value : Parser Json}

theorem itemsOnto_listed (h : ∀ cs, Reads Listed (value cs)) (fuel : Nat) {done : List Json}
    (before : ∀ j ∈ done, j.Listed) (cs : List Char) :
    Reads (fun items => ∀ j ∈ items, j.Listed) (itemsOnto value fuel done cs) := by
  induction fuel generalizing done cs with
  | zero => exact .error _
  | succ fuel ih =>
      rw [itemsOnto]
      split
      · exact .error _
      · exact .ok (fun j hj => before j (List.mem_reverse.mp hj)) _
      · split
        · exact .error _
        · next v rest first => exact ih (List.forall_mem_cons.mpr ⟨h _ v rest first, before⟩) rest

theorem membersOnto_listed (h : ∀ cs, Reads Listed (value cs)) (fuel : Nat) {done : List (String × Json)}
    (before : ∀ m ∈ done, m.2.Listed) (cs : List Char) :
    Reads (fun members => ∀ m ∈ members, m.2.Listed) (membersOnto value fuel done cs) := by
  induction fuel generalizing done cs with
  | zero => exact .error _
  | succ fuel ih =>
      rw [membersOnto]
      split
      · exact .error _
      · exact .ok (fun m hm => before m (List.mem_reverse.mp hm)) _
      · next cs _ =>
        simp only [bind, Except.bind]
        cases memberName cs with
        | error e => exact .error _
        | ok name =>
            dsimp only
            cases colon name.2 with
            | error e => exact .error _
            | ok rest =>
                dsimp only
                cases first : value rest with
                | error e => exact .error _
                | ok v => exact ih (List.forall_mem_cons.mpr ⟨h rest v.1 v.2 first, before⟩) _

theorem valueWith_listed {inner : Option (Parser Json)} (h : ∀ value ∈ inner, ∀ cs, Reads Listed (value cs))
    (cs : List Char) : Reads Listed (valueWith inner cs) := by
  unfold valueWith
  split
  · split
    · exact .error _
    · next value =>
      exact (itemsOnto_listed (h value rfl) _ (List.forall_mem_nil _) _).map Json.array (List.drop 1)
        fun items inside => all_array.mpr ⟨rfl, inside⟩
  · split
    · exact .error _
    · next value =>
      refine (membersOnto_listed (h value rfl) _ (List.forall_mem_nil _) _).map
        (fun members => Json.object (OrderedMap.ofList members).entries) (List.drop 1) fun members inside => ?_
      have listed : OrderedMap.Ascending (OrderedMap.ofList members).entries :=
        OrderedMap.ascending_ofList members
      exact all_object.mpr ⟨decide_eq_true listed, fun m hm => inside m (OrderedMap.mem_ofList hm)⟩
  · exact scalar_listed _

theorem valueAt_listed (levels : Nat) (cs : List Char) : Reads Listed (valueAt levels cs) := by
  induction levels generalizing cs with
  | zero => exact valueWith_listed (fun value none => by cases none) cs
  | succ levels ih =>
      refine valueWith_listed (fun value some => ?_) cs
      cases some
      exact ih

/-- Objects that are read from a text list their members by name. -/
theorem parse_listed {text : String} {j : Json} (read : parse text = .ok j) : j.isListed = true := by
  unfold parse at read
  split at read
  · cases read
  · next v rest first =>
    split at read
    · cases read
      exact valueAt_listed _ _ _ _ first
    · cases read

end PackRpc.Json
