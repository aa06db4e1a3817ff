import PackRpc.Proofs.Json.Scalars

namespace PackRpc.Json

mutual

/-- The value with other floats in it. -/
def refloat (f : Binary64 → Binary64) : Json → Json
  | .float x => .float (f x)
  | .array items => .array (refloatItems f items)
  | .object members => .object (refloatMembers f members)
  | j => j

def refloatItems (f : Binary64 → Binary64) : List Json → List Json
  | [] => []
  | item :: items => refloat f item :: refloatItems f items

def refloatMembers (f : Binary64 → Binary64) : List (String × Json) → List (String × Json)
  | [] => []
  | (name, item) :: members => (name, refloat f item) :: refloatMembers f members

end

mutual

/-- How many arrays and objects stand inside of each other. -/
def nesting : Json → Nat
  | .array items => itemsNesting items + 1
  | .object members => membersNesting members + 1
  | _ => 0

def itemsNesting : List Json → Nat
  | [] => 0
  | item :: items => max (nesting item) (itemsNesting items)

def membersNesting : List (String × Json) → Nat
  | [] => 0
  | (_, item) :: members => max (nesting item) (membersNesting members)

end

/-- Whether every float in the value is read from its text as itself. -/
def isReadBack (j : Json) : Bool :=
  j.all fun
    | .float x => decide (x.reread = x)
    | _ => true

section
variable {f : Binary64 → Binary64} {items : List Json} {members : List (String × Json)} {n : Nat}

theorem refloatItems_eq (items : List Json) : refloatItems f items = items.map (refloat f) := by
  induction items with
  | nil => rfl
  | cons item items ih => rw [refloatItems, ih, List.map_cons]

theorem refloatMembers_eq (members : List (String × Json)) :
    refloatMembers f members = members.map fun m => (m.1, m.2.refloat f) := by
  induction members with
  | nil => rfl
  | cons m members ih => rw [refloatMembers, ih, List.map_cons]

theorem refloat_array_self (each : ∀ j ∈ items, j.refloat f = j) : (array items).refloat f = .array items := by
  rw [refloat, refloatItems_eq, (List.map_inj_left (g := id)).mpr each, List.map_id]

theorem refloat_object_self (each : ∀ m ∈ members, m.2.refloat f = m.2) :
    (object members).refloat f = .object members := by
  have same := (List.map_inj_left (f := fun m => (m.1, m.2.refloat f)) (g := id)).mpr
    fun m hm => Prod.ext rfl (each m hm)
  rw [refloat, refloatMembers_eq, same, List.map_id]

theorem refloat_id (j : Json) : j.refloat id = j := by
  induction j using Json.induction with
  | array items ih => exact refloat_array_self ih
  | object members ih => exact refloat_object_self ih
  | _ => rfl

theorem refloat_readBack {j : Json} (exact : j.isReadBack = true) : j.refloat Binary64.reread = j := by
  induction j using Json.induction with
  | float x => exact congrArg float (of_decide_eq_true exact)
  | array items ih => exact refloat_array_self fun j hj => ih j hj ((all_array.mp exact).2 j hj)
  | object members ih => exact refloat_object_self fun m hm => ih m hm ((all_object.mp exact).2 m hm)
  | _ => rfl

theorem refloat_ne_null {j : Json} (full : j ≠ .null) : j.refloat f ≠ .null := by
  cases j with
  | null => exact absurd rfl full
  | _ => exact Json.noConfusion

theorem nesting_array : (array items).nesting ≤ n + 1 ↔ ∀ j ∈ items, j.nesting ≤ n := by
  have inside : itemsNesting items ≤ n ↔ ∀ j ∈ items, j.nesting ≤ n := by
    induction items with
    | nil => simp [itemsNesting]
    | cons item items ih => simp [itemsNesting, ih]
  rw [nesting, Nat.add_le_add_iff_right, inside]

theorem nesting_object : (object members).nesting ≤ n + 1 ↔ ∀ m ∈ members, m.2.nesting ≤ n := by
  have inside : membersNesting members ≤ n ↔ ∀ m ∈ members, m.2.nesting ≤ n := by
    induction members with
    | nil => simp [membersNesting]
    | cons m members ih => simp [membersNesting, ih]
  rw [nesting, Nat.add_le_add_iff_right, inside]

end

/-! ## Containers -/

def behindCommas (texts : List String) : List Char := texts.flatMap fun text => ',' :: text.toList

theorem commas_cons (text : String) (texts : List String) :
    (",".intercalate (text :: texts)).toList = text.toList ++ behindCommas texts := by
  induction texts generalizing text with
  | nil => simp [behindCommas]
  | cons next texts ih =>
      rw [String.intercalate_cons_cons, String.toList_append, ih]
      simp [behindCommas]

/-- What is left of the texts of items: the first of all has no comma before it. -/
def remaining : (first : Bool) → List String → List Char
  | true, texts => (",".intercalate texts).toList
  | false, texts => behindCommas texts

/-- In front of anything that no number goes on with, the text is not read. -/
def Refuses {α : Type} (read : Parser α) (text : String) : Prop :=
  Opens text.toList ∧ ∀ rest, Ends rest → ∃ e, read (text.toList ++ rest) = .error e

/-- A loop over the items of a container: it ends at the closing character, and goes on to the next item else. -/
structure IsLoop {α : Type} (close : Char) (item : Parser α) (loop : Nat → List α → Parser (List α)) : Prop where
  ends : ∀ fuel done cs, nextItem close done.isEmpty cs = .ok none →
    loop (fuel + 1) done cs = .ok (done.reverse, skipBlanks cs)
  goes_on : ∀ fuel done cs next a rest, nextItem close done.isEmpty cs = .ok (some next) →
    item next = .ok (a, rest) → loop (fuel + 1) done cs = loop fuel (a :: done) rest
  fails : ∀ fuel done cs next e, nextItem close done.isEmpty cs = .ok (some next) → item next = .error e →
    loop (fuel + 1) done cs = .error e

section
variable {α : Type} {close : Char} {item : Parser α} {loop : Nat → List α → Parser (List α)}
  {texts : List String} {items : List α} {rest : List Char}

theorem skipBlanks_opens {cs : List Char} (opens : Opens cs) (rest : List Char) :
    skipBlanks (cs ++ rest) = cs ++ rest := by
  obtain ⟨c, tail, rfl, blank, -⟩ := opens
  exact List.dropWhile_cons_of_neg (by rw [blank]; exact Bool.false_ne_true)

theorem ends_behindCommas (closing : close = ']' ∨ close = '}') (texts : List String) (rest : List Char) :
    Ends (behindCommas texts ++ close :: rest) := by
  cases texts with
  | nil => rcases closing with rfl | rfl <;> exact ends_cons (by decide)
  | cons text texts => exact ends_cons (by decide)

theorem skipBlanks_close (closing : close = ']' ∨ close = '}') (rest : List Char) :
    skipBlanks (close :: rest) = close :: rest := by
  rcases closing with rfl | rfl <;> rfl

theorem nextItem_close (closing : close = ']' ∨ close = '}') (first : Bool) (rest : List Char) :
    nextItem close first (close :: rest) = .ok none := by
  rcases closing with rfl | rfl <;> rfl

theorem nextItem_first (closing : close = ']' ∨ close = '}') {cs : List Char} (opens : Opens cs)
    (rest : List Char) : nextItem close true (cs ++ rest) = .ok (some (cs ++ rest)) := by
  rw [nextItem, skipBlanks_opens opens]
  obtain ⟨c, tail, rfl, -, bracket, brace⟩ := opens
  have other : c ≠ close := by rcases closing with rfl | rfl <;> assumption
  exact if_neg other

theorem nextItem_comma (closing : close = ']' ∨ close = '}') {cs : List Char} (opens : Opens cs)
    (rest : List Char) : nextItem close false (',' :: cs ++ rest) = .ok (some (cs ++ rest)) := by
  have skipped := skipBlanks_opens opens rest
  obtain ⟨c, tail, rfl, -, bracket, brace⟩ := opens
  have other : c ≠ close := by rcases closing with rfl | rfl <;> assumption
  have comma : ',' ≠ close := by rcases closing with rfl | rfl <;> decide
  have front : skipBlanks (',' :: (c :: tail) ++ rest) = ',' :: (c :: tail ++ rest) := rfl
  rw [nextItem, front]
  dsimp only
  rw [if_neg comma, if_neg Bool.false_ne_true, if_neg (not_not_intro rfl), skipped]
  exact if_neg other

theorem behindCommas_cons (text : String) (texts : List String) (rest : List Char) :
    behindCommas (text :: texts) ++ rest = ',' :: text.toList ++ (behindCommas texts ++ rest) := by
  simp [behindCommas]

theorem nextItem_remaining (closing : close = ']' ∨ close = '}') {text : String} (opens : Opens text.toList)
    (texts : List String) (first : Bool) (rest : List Char) :
    nextItem close first (remaining first (text :: texts) ++ close :: rest) =
      .ok (some (text.toList ++ (behindCommas texts ++ close :: rest))) := by
  cases first with
  | true =>
      rw [remaining, commas_cons, List.append_assoc]
      exact nextItem_first closing opens _
  | false =>
      rw [remaining, behindCommas_cons]
      exact nextItem_comma closing opens _

theorem remaining_nil (first : Bool) : remaining first [] = [] := by
  cases first <;> rfl

theorem IsLoop.takes (h : IsLoop close item loop) (closing : close = ']' ∨ close = '}')
    (each : List.Forall₂ (Takes item) texts items) {fuel : Nat} (enough : texts.length < fuel) (done : List α)
    (rest : List Char) :
    loop fuel done (remaining done.isEmpty texts ++ close :: rest) = .ok (done.reverse ++ items, close :: rest) := by
  induction each generalizing fuel done with
  | nil =>
      cases fuel with
      | zero => cases enough
      | succ fuel =>
          rw [remaining_nil, List.append_nil]
          exact (h.ends fuel done _ (nextItem_close closing _ rest)).trans (by rw [skipBlanks_close closing])
  | @cons text a texts items first _ ih =>
      cases fuel with
      | zero => cases enough
      | succ fuel =>
          obtain ⟨opens, taken⟩ := first
          rw [h.goes_on fuel done _ _ a _ (nextItem_remaining closing opens texts _ rest)
            (taken _ (ends_behindCommas closing texts rest))]
          refine (ih (Nat.lt_of_succ_lt_succ enough) (a :: done)).trans ?_
          rw [List.reverse_cons, List.append_assoc]
          rfl

/-- The loop fails at the first item that is refused. -/
theorem IsLoop.refuses (h : IsLoop close item loop) (closing : close = ']' ∨ close = '}')
    (each : ∀ text ∈ texts, Refuses item text ∨ ∃ a, Takes item text a)
    (refused : ∃ text ∈ texts, Refuses item text) {fuel : Nat} (enough : texts.length < fuel) (done : List α)
    (rest : List Char) : ∃ e, loop fuel done (remaining done.isEmpty texts ++ close :: rest) = .error e := by
  induction texts generalizing fuel done with
  | nil =>
      obtain ⟨text, none, -⟩ := refused
      cases none
  | cons text texts ih =>
      cases fuel with
      | zero => cases enough
      | succ fuel =>
          have ends := ends_behindCommas closing texts rest
          rcases each text (.head _) with ⟨opens, refuses⟩ | ⟨a, opens, taken⟩
          · obtain ⟨e, failed⟩ := refuses _ ends
            exact ⟨e, h.fails fuel done _ _ e (nextItem_remaining closing opens texts _ rest) failed⟩
          · obtain ⟨other, inside, refuses⟩ := refused
            rw [h.goes_on fuel done _ _ a _ (nextItem_remaining closing opens texts _ rest) (taken _ ends)]
            rcases List.mem_cons.mp inside with rfl | later
            · obtain ⟨e, failed⟩ := refuses.2 _ ends
              rw [taken _ ends] at failed
              cases failed
            · exact ih (fun text ht => each text (.tail _ ht)) ⟨other, later, refuses⟩ (Nat.lt_of_succ_lt_succ enough)
                (a :: done)

theorem length_le_behindCommas (texts : List String) : texts.length ≤ (behindCommas texts).length := by
  induction texts with
  | nil => exact Nat.le_refl _
  | cons text texts ih =>
      rw [behindCommas, List.flatMap_cons, List.length_append, List.length_cons, List.length_cons]
      change texts.length + 1 ≤ text.toList.length + 1 + (behindCommas texts).length
      omega

/-- A container is read with a step for each of its characters and one more. -/
theorem enough_steps (close : Char) (texts : List String) (rest : List Char) :
    texts.length < ((",".intercalate texts).toList ++ close :: rest).length + 1 := by
  cases texts with
  | nil => exact Nat.succ_pos _
  | cons text texts =>
      have size := length_le_behindCommas texts
      rw [commas_cons, List.length_append, List.length_append, List.length_cons, List.length_cons]
      omega

end

section
variable {value : Parser Json}

theorem itemsOnto_isLoop (value : Parser Json) : IsLoop ']' value (itemsOnto value) where
  ends fuel done cs next := by
    rw [itemsOnto, next]
  goes_on fuel done cs next a rest found taken := by
    rw [itemsOnto, found]
    dsimp only
    rw [taken]
  fails fuel done cs next e found failed := by
    rw [itemsOnto, found]
    dsimp only
    rw [failed]

def member (value : Parser Json) : Parser (String × Json) := fun cs => do
  let (name, cs) ← memberName cs
  let cs ← colon cs
  let (v, cs) ← value cs
  .ok ((name, v), cs)

theorem membersOnto_isLoop (value : Parser Json) : IsLoop '}' (member value) (membersOnto value) where
  ends fuel done cs next := by
    rw [membersOnto, next]
  goes_on fuel done cs next a rest found taken := by
    rw [membersOnto, found]
    simp only [member, bind, Except.bind] at taken ⊢
    split at taken
    · cases taken
    · split at taken
      · cases taken
      · split at taken
        · cases taken
        · next v made =>
          cases taken
          rfl
  fails fuel done cs next e found failed := by
    rw [membersOnto, found]
    simp only [member, bind, Except.bind] at failed ⊢
    split at failed
    · cases failed
      rfl
    · split at failed
      · cases failed
        rfl
      · split at failed
        · cases failed
          rfl
        · cases failed

theorem memberText_toList (name text : String) : (stringText name ++ ":" ++ text).toList =
    '"' :: (spelling name.toList ++ '"' :: ':' :: text.toList) := by
  simp [stringText_toList]

theorem member_text (value : Parser Json) (name text : String) (rest : List Char) :
    member value ((stringText name ++ ":" ++ text).toList ++ rest) =
      (value (text.toList ++ rest)).map fun r => ((name, r.1), r.2) := by
  have named (tail : List Char) : memberName ('"' :: (spelling name.toList ++ '"' :: tail)) = .ok (name, tail) :=
    stringBody_spelling name tail
  have after (tail : List Char) : colon (':' :: tail) = .ok tail := rfl
  rw [memberText_toList, List.cons_append, List.append_assoc]
  simp only [member, bind, Except.bind, List.cons_append, named, after]
  cases value (text.toList ++ rest) <;> rfl

theorem takes_member {name text : String} {j : Json} (h : Takes value text j) :
    Takes (member value) (stringText name ++ ":" ++ text) (name, j) := by
  refine ⟨⟨'"', _, memberText_toList name text, by decide, by decide, by decide⟩, fun rest ends => ?_⟩
  rw [member_text, h.2 rest ends]
  rfl

theorem refuses_member {name text : String} (h : Refuses value text) :
    Refuses (member value) (stringText name ++ ":" ++ text) := by
  refine ⟨⟨'"', _, memberText_toList name text, by decide, by decide, by decide⟩, fun rest ends => ?_⟩
  obtain ⟨e, failed⟩ := h.2 rest ends
  exact ⟨e, by rw [member_text, failed]; rfl⟩

variable {f : Binary64 → Binary64}

theorem itemTexts_eq (items : List Json) : itemTexts items = items.map text := by
  induction items with
  | nil => rfl
  | cons item items ih => rw [itemTexts, ih, List.map_cons]

theorem memberTexts_eq (members : List (String × Json)) :
    memberTexts members = members.map fun m => stringText m.1 ++ ":" ++ m.2.text := by
  induction members with
  | nil => rfl
  | cons m members ih => rw [memberTexts, ih, List.map_cons]

theorem array_toList (items : List Json) :
    (array items).text.toList = '[' :: ((",".intercalate (itemTexts items)).toList ++ [']']) := by
  simp [text]

theorem object_toList (members : List (String × Json)) :
    (object members).text.toList = '{' :: ((",".intercalate (memberTexts members)).toList ++ ['}']) := by
  simp [text]

theorem takes_array {levels : Nat} {items : List Json}
    (each : ∀ j ∈ items, Takes (valueAt levels) j.text (j.refloat f)) :
    Takes (valueAt (levels + 1)) (array items).text ((array items).refloat f) := by
  have all : List.Forall₂ (Takes (valueAt levels)) (itemTexts items) (refloatItems f items) := by
    rw [itemTexts_eq, refloatItems_eq, List.forall₂_map_left_iff, List.forall₂_map_right_iff, List.forall₂_same]
    exact each
  refine ⟨⟨'[', _, array_toList items, by decide, by decide, by decide⟩, fun rest _ => ?_⟩
  have read := (itemsOnto_isLoop (valueAt levels)).takes (.inl rfl) all (enough_steps ']' _ rest) [] rest
  rw [array_toList, List.cons_append, List.append_assoc]
  change Except.map _ (itemsOnto (valueAt levels) _ [] _) = _
  exact (congrArg (Except.map _) read).trans rfl

theorem ascending_refloat {members : List (String × Json)} (listed : OrderedMap.Ascending members) :
    OrderedMap.Ascending (refloatMembers f members) := by
  rw [refloatMembers_eq]
  exact List.pairwise_map.mpr listed

theorem takes_object {levels : Nat} {members : List (String × Json)}
    (listed : OrderedMap.Ascending members)
    (each : ∀ m ∈ members, Takes (valueAt levels) m.2.text (m.2.refloat f)) :
    Takes (valueAt (levels + 1)) (object members).text ((object members).refloat f) := by
  have all : List.Forall₂ (Takes (member (valueAt levels))) (memberTexts members) (refloatMembers f members) := by
    rw [memberTexts_eq, refloatMembers_eq, List.forall₂_map_left_iff, List.forall₂_map_right_iff,
      List.forall₂_same]
    exact fun m hm => takes_member (each m hm)
  refine ⟨⟨'{', _, object_toList members, by decide, by decide, by decide⟩, fun rest _ => ?_⟩
  have read := (membersOnto_isLoop (valueAt levels)).takes (.inr rfl) all (enough_steps '}' _ rest) [] rest
  have kept := OrderedMap.ofList_ascending (ascending_refloat (f := f) listed)
  rw [object_toList, List.cons_append, List.append_assoc]
  change Except.map _ (membersOnto (valueAt levels) _ [] _) = _
  refine (congrArg (Except.map _) read).trans ?_
  change Except.ok (Json.object (OrderedMap.ofList (refloatMembers f members)).entries, rest) = _
  rw [kept]
  rfl

theorem refuses_array_zero (items : List Json) : Refuses (valueAt 0) (array items).text := by
  refine ⟨⟨'[', _, array_toList items, by decide, by decide, by decide⟩, fun rest _ => ⟨.malformed, ?_⟩⟩
  rw [array_toList]
  rfl

theorem refuses_object_zero (members : List (String × Json)) : Refuses (valueAt 0) (object members).text := by
  refine ⟨⟨'{', _, object_toList members, by decide, by decide, by decide⟩, fun rest _ => ⟨.malformed, ?_⟩⟩
  rw [object_toList]
  rfl

theorem refuses_array {levels : Nat} {items : List Json}
    (each : ∀ j ∈ items, Refuses (valueAt levels) j.text ∨ ∃ a, Takes (valueAt levels) j.text a)
    (refused : ∃ j ∈ items, Refuses (valueAt levels) j.text) :
    Refuses (valueAt (levels + 1)) (array items).text := by
  refine ⟨⟨'[', _, array_toList items, by decide, by decide, by decide⟩, fun rest _ => ?_⟩
  have inside : ∀ text ∈ itemTexts items, Refuses (valueAt levels) text ∨ ∃ a, Takes (valueAt levels) text a := by
    rw [itemTexts_eq]
    exact List.forall_mem_map.mpr each
  have some : ∃ text ∈ itemTexts items, Refuses (valueAt levels) text := by
    obtain ⟨j, hj, refuses⟩ := refused
    exact ⟨j.text, by rw [itemTexts_eq]; exact List.mem_map_of_mem hj, refuses⟩
  obtain ⟨e, failed⟩ :=
    (itemsOnto_isLoop (valueAt levels)).refuses (.inl rfl) inside some (enough_steps ']' _ rest) [] rest
  refine ⟨e, ?_⟩
  rw [array_toList, List.cons_append, List.append_assoc]
  change Except.map _ (itemsOnto (valueAt levels) _ [] _) = _
  exact (congrArg (Except.map _) failed).trans rfl

theorem refuses_object {levels : Nat} {members : List (String × Json)}
    (each : ∀ m ∈ members, Refuses (valueAt levels) m.2.text ∨ ∃ a, Takes (valueAt levels) m.2.text a)
    (refused : ∃ m ∈ members, Refuses (valueAt levels) m.2.text) :
    Refuses (valueAt (levels + 1)) (object members).text := by
  refine ⟨⟨'{', _, object_toList members, by decide, by decide, by decide⟩, fun rest _ => ?_⟩
  have inside : ∀ text ∈ memberTexts members,
      Refuses (member (valueAt levels)) text ∨ ∃ a, Takes (member (valueAt levels)) text a := by
    rw [memberTexts_eq]
    refine List.forall_mem_map.mpr fun m hm => (each m hm).imp refuses_member ?_
    rintro ⟨a, takes⟩
    exact ⟨_, takes_member takes⟩
  have some : ∃ text ∈ memberTexts members, Refuses (member (valueAt levels)) text := by
    obtain ⟨m, hm, refuses⟩ := refused
    exact ⟨_, by rw [memberTexts_eq]; exact List.mem_map_of_mem hm, refuses_member refuses⟩
  obtain ⟨e, failed⟩ :=
    (membersOnto_isLoop (valueAt levels)).refuses (.inr rfl) inside some (enough_steps '}' _ rest) [] rest
  refine ⟨e, ?_⟩
  rw [object_toList, List.cons_append, List.append_assoc]
  change Except.map _ (membersOnto (valueAt levels) _ [] _) = _
  exact (congrArg (Except.map _) failed).trans rfl

/-- The text of a value is read as the value, with the floats that their digits are read as. -/
theorem takes_text {j : Json} (finite : j.isFinite = true) (listed : j.isListed = true) {levels : Nat}
    (nested : j.nesting ≤ levels) : Takes (valueAt levels) j.text (j.refloat Binary64.reread) := by
  induction j using Json.induction generalizing levels with
  | null =>
      have read (rest : List Char) : scalar ("null".toList ++ rest) = .ok (.null, rest) :=
        word_append ['u', 'l', 'l'] .null rest
      exact takes_scalar (fun rest _ => read rest) levels
  | bool b =>
      cases b with
      | false =>
          have read (rest : List Char) : scalar ("false".toList ++ rest) = .ok (.bool false, rest) :=
            word_append ['a', 'l', 's', 'e'] (.bool false) rest
          exact takes_scalar (fun rest _ => read rest) levels
      | true =>
          have read (rest : List Char) : scalar ("true".toList ++ rest) = .ok (.bool true, rest) :=
            word_append ['r', 'u', 'e'] (.bool true) rest
          exact takes_scalar (fun rest _ => read rest) levels
  | int n => exact takes_scalar (fun rest ends => scalar_int n ends) levels
  | float x => exact takes_scalar (fun rest ends => scalar_float finite ends) levels
  | string text => exact takes_scalar (fun rest _ => scalar_string text rest) levels
  | array items ih =>
      cases levels with
      | zero => cases nested
      | succ levels =>
          exact takes_array fun j hj => ih j hj ((all_array.mp finite).2 j hj) ((all_array.mp listed).2 j hj)
            (nesting_array.mp nested j hj)
  | object members ih =>
      cases levels with
      | zero => cases nested
      | succ levels =>
          obtain ⟨ascending, inside⟩ := all_object.mp listed
          exact takes_object (of_decide_eq_true ascending) fun m hm =>
            ih m hm ((all_object.mp finite).2 m hm) (inside m hm) (nesting_object.mp nested m hm)

/-- The text of a value that nests too deep is not read. -/
theorem refuses_text {j : Json} (finite : j.isFinite = true) (listed : j.isListed = true) {levels : Nat}
    (deep : levels < j.nesting) : Refuses (valueAt levels) j.text := by
  have either {j : Json} {levels : Nat} (finite : j.isFinite = true) (listed : j.isListed = true)
      (ih : levels < j.nesting → Refuses (valueAt levels) j.text) :
      Refuses (valueAt levels) j.text ∨ ∃ a, Takes (valueAt levels) j.text a := by
    rcases Nat.lt_or_ge levels j.nesting with deep | nested
    · exact .inl (ih deep)
    · exact .inr ⟨_, takes_text finite listed nested⟩
  induction j using Json.induction generalizing levels with
  | array items ih =>
      have inside := (all_array.mp finite).2
      have inside' := (all_array.mp listed).2
      cases levels with
      | zero => exact refuses_array_zero items
      | succ levels =>
          have some := mt nesting_array.mpr (Nat.not_le.mpr deep)
          push Not at some
          obtain ⟨j, hj, deep⟩ := some
          exact refuses_array (fun j hj => either (inside j hj) (inside' j hj) (ih j hj (inside j hj) (inside' j hj)))
            ⟨j, hj, ih j hj (inside j hj) (inside' j hj) deep⟩
  | object members ih =>
      have inside := (all_object.mp finite).2
      have inside' := (all_object.mp listed).2
      cases levels with
      | zero => exact refuses_object_zero members
      | succ levels =>
          have some := mt nesting_object.mpr (Nat.not_le.mpr deep)
          push Not at some
          obtain ⟨m, hm, deep⟩ := some
          exact refuses_object (fun m hm => either (inside m hm) (inside' m hm) (ih m hm (inside m hm) (inside' m hm)))
            ⟨m, hm, ih m hm (inside m hm) (inside' m hm) deep⟩
  | _ => cases deep

theorem parse_own_text {j : Json} (finite : j.isFinite = true) (listed : j.isListed = true)
    (nested : j.nesting ≤ maxDepth) : parse (j.text ++ "\n") = .ok (j.refloat Binary64.reread) := by
  have read := (takes_text finite listed nested).2 ['\n'] (ends_cons (by decide))
  have spelled : (j.text ++ "\n").toList = j.text.toList ++ ['\n'] := by simp
  rw [parse, spelled, read]
  rfl

theorem parse_deep {j : Json} (finite : j.isFinite = true) (listed : j.isListed = true)
    (deep : maxDepth < j.nesting) : ∃ e, parse (j.text ++ "\n") = .error e := by
  obtain ⟨e, failed⟩ := (refuses_text finite listed deep).2 ['\n'] (ends_cons (by decide))
  have spelled : (j.text ++ "\n").toList = j.text.toList ++ ['\n'] := by simp
  exact ⟨e, by rw [parse, spelled, failed]⟩

end

end PackRpc.Json
