import PackRpc.Proofs.Descriptor.Levels
import PackRpc.Proofs.Descriptor.Stability
import PackRpc.Proofs.Descriptor.Tokens
import PackRpc.Proofs.Text.Integer
import PackRpc.Value.Text
/-!
# Telling values by their texts

Texts of values are for people, and a string or bytes inside of them may look like anything. Where the type
rules these out, two values have the same text only if they are the same: what the text of an item, a field
or an entry is can be seen from what follows it.
-/
namespace PackRpc

/-- What follows the text of a value inside another one begins with one of these. -/
def closers : List Char := [',', ':', ']', '\x7d']

def Behind (rest : List Char) : Prop := ∀ c ∈ rest.head?, c ∈ closers

/-- The two texts begin one text, each with something behind it, only if something holds; then they also end at
one place. -/
def Told (t u : List Char) (R : Prop) : Prop :=
  ∀ r s, Behind r → Behind s → t ++ r = u ++ s → R ∧ r = s

/-- A text that cannot be taken for what is behind another. -/
def Opens (t : List Char) : Prop := ∃ c rest, t = c :: rest ∧ c ∉ closers

def afterCommas (ts : List String) : List Char := ts.flatMap fun t => ',' :: ' ' :: t.toList

section
variable {c close : Char} {t t' u u' r s : List Char} {P R : Prop}

theorem behind_cons (h : c ∈ closers) (rest : List Char) : Behind (c :: rest) := by
  rintro _ ⟨⟩
  exact h

theorem Opens.append (h : Opens t) (r : List Char) : Opens (t ++ r) := by
  obtain ⟨c, rest, rfl, new⟩ := h
  exact ⟨c, rest ++ r, rfl, new⟩

namespace Told

theorem refl (t : List Char) (holds : R) : Told t t R :=
  fun _ _ _ _ same => ⟨holds, List.append_cancel_left same⟩

theorem imp (h : Told t u P) (weaker : P → R) : Told t u R := by
  intro r s hr hs same
  exact (h r s hr hs same).imp_left weaker

theorem symm (h : Told t u R) : Told u t R := by
  intro r s hr hs same
  obtain ⟨holds, rfl⟩ := h s r hs hr same.symm
  exact ⟨holds, rfl⟩

theorem prepend (h : Told t u R) (front : List Char) : Told (front ++ t) (front ++ u) R := by
  intro r s hr hs same
  rw [List.append_assoc, List.append_assoc, List.append_cancel_left_eq] at same
  exact h r s hr hs same

theorem append (first : Told t u P) (second : Told t' u' R) (ht : ∀ r, Behind (t' ++ r))
    (hu : ∀ s, Behind (u' ++ s)) : Told (t ++ t') (u ++ u') (P ∧ R) := by
  intro r s hr hs same
  rw [List.append_assoc, List.append_assoc] at same
  obtain ⟨holds, rest⟩ := first _ _ (ht r) (hu s) same
  obtain ⟨holds', rfl⟩ := second r s hr hs rest
  exact ⟨⟨holds, holds'⟩, rfl⟩

theorem of_ne {d : Char} (differ : c ≠ d) (t u : List Char) : Told (c :: t) (d :: u) R := by
  intro r s _ _ same
  exact absurd (List.cons.inj same).1 differ

theorem of_opens (closing : c ∈ closers) (opens : Opens u) (t : List Char) : Told (c :: t) u R := by
  obtain ⟨d, rest, rfl, new⟩ := opens
  refine of_ne ?_ t rest
  rintro rfl
  exact new closing

end Told

/-- Texts in certain characters end where another character follows. -/
theorem span_eq {p : Char → Bool} (ht : ∀ c ∈ t, p c = true) (hu : ∀ c ∈ u, p c = true)
    (hr : ∀ c ∈ r.head?, p c = false) (hs : ∀ c ∈ s.head?, p c = false) (same : t ++ r = u ++ s) :
    t = u ∧ r = s := by
  have stops : ∀ rest : List Char, (∀ c ∈ rest.head?, p c = false) → rest.takeWhile p = [] := by
    intro rest h
    cases rest with
    | nil => rfl
    | cons c rest => exact List.takeWhile_cons_of_neg (by simp [h c rfl])
  have spans := congrArg (List.takeWhile p) same
  rw [List.takeWhile_append_of_pos ht, List.takeWhile_append_of_pos hu, stops r hr, stops s hs, List.append_nil,
    List.append_nil] at spans
  subst spans
  exact ⟨rfl, List.append_cancel_left same⟩

end

section
variable {α : Type} {text : α → String} {R : α → α → Prop} {as bs : List α} {close : Char}

theorem behind_afterCommas (h : close ∈ closers) (ts : List String) (r : List Char) :
    Behind (afterCommas ts ++ [close] ++ r) := by
  cases ts with
  | nil => exact behind_cons h r
  | cons t ts => exact behind_cons (by decide) _

theorem first_told {a b : α} (closing : close ∈ closers) (first : Told (text a).toList (text b).toList (R a b))
    (others : Told (afterCommas (as.map text) ++ [close]) (afterCommas (bs.map text) ++ [close])
      (List.Forall₂ R as bs)) :
    Told ((text a).toList ++ (afterCommas (as.map text) ++ [close]))
      ((text b).toList ++ (afterCommas (bs.map text) ++ [close])) (List.Forall₂ R (a :: as) (b :: bs)) := by
  have both := first.append others (behind_afterCommas closing _) (behind_afterCommas closing _)
  exact both.imp fun h => .cons h.1 h.2

theorem afterCommas_told (closing : close ∈ closers) (other : close ≠ ',')
    (each : ∀ (i : Nat) (a b : α), as[i]? = some a → bs[i]? = some b →
      Told (text a).toList (text b).toList (R a b)) :
    Told (afterCommas (as.map text) ++ [close]) (afterCommas (bs.map text) ++ [close])
      (List.Forall₂ R as bs) := by
  induction as generalizing bs with
  | nil =>
      cases bs with
      | nil => exact .refl _ .nil
      | cons b bs => exact .of_ne other _ _
  | cons a as ih =>
      cases bs with
      | nil => exact .of_ne other.symm _ _
      | cons b bs =>
          have others := ih fun i a b ha hb => each (i + 1) a b ha hb
          have told := (first_told closing (each 0 a b rfl rfl) others).prepend [',', ' ']
          simpa [afterCommas] using told

theorem intercalate_cons (t : String) (ts : List String) :
    (", ".intercalate (t :: ts)).toList = t.toList ++ afterCommas ts := by
  induction ts generalizing t with
  | nil => simp [afterCommas]
  | cons u ts ih =>
      rw [String.intercalate_cons_cons, String.toList_append, ih]
      simp [afterCommas]

/-- Texts in a list are told if they are told one by one and none of them can be taken for the end of the list. -/
theorem listed_told (close : Char) (closing : close ∈ closers) (other : close ≠ ',')
    (each : ∀ (i : Nat) (a b : α), as[i]? = some a → bs[i]? = some b →
      Told (text a).toList (text b).toList (R a b))
    (has : ∀ a ∈ as, Opens (text a).toList) (hbs : ∀ b ∈ bs, Opens (text b).toList) :
    Told ((", ".intercalate (as.map text)).toList ++ [close])
      ((", ".intercalate (bs.map text)).toList ++ [close]) (List.Forall₂ R as bs) := by
  cases as with
  | nil =>
      cases bs with
      | nil => exact .refl _ .nil
      | cons b bs =>
          rw [List.map_cons, intercalate_cons, List.append_assoc]
          exact .of_opens closing ((hbs b (.head _)).append _) _
  | cons a as =>
      cases bs with
      | nil =>
          rw [List.map_cons, intercalate_cons, List.append_assoc]
          exact .symm (.of_opens closing ((has a (.head _)).append _) _)
      | cons b bs =>
          have others := afterCommas_told closing other fun i a b ha hb => each (i + 1) a b ha hb
          rw [List.map_cons, List.map_cons, intercalate_cons, intercalate_cons, List.append_assoc,
            List.append_assoc]
          exact first_told closing (each 0 a b rfl rfl) others

end

namespace Descriptor

/-- Whether the texts of values of the type can be told: there is no text and there are no bytes or floats in
it, and what is declared has names. -/
def isLegible (d : Descriptor) : Bool :=
  d.all fun
    | .float | .string | .raw | .object => false
    | .record name fields => decide (IsName name ∧ ∀ f ∈ fields, IsName f.1)
    | _ => true

def Yields (d : Descriptor) (v : Value) : Prop := ∃ w, d.decode w = .ok v

section
variable {d inner element key value : Descriptor} {ds : List Descriptor} {name : String}
  {fields : List (String × Descriptor)} {v : Value} {ws : List Packed} {vs : List Value}

theorem yields_bool (h : Descriptor.bool.Yields v) : ∃ b, v = .bool b := by
  obtain ⟨w, decoded⟩ := h
  cases w <;> cases decoded
  exact ⟨_, rfl⟩

theorem yields_unit (h : unit.Yields v) : v = .nil := by
  obtain ⟨w, decoded⟩ := h
  cases decoded
  rfl

theorem yields_nullable (h : (nullable inner).Yields v) : v = .nil ∨ inner.Yields v := by
  obtain ⟨w, decoded⟩ := h
  rw [decode_nullable] at decoded
  split at decoded
  · cases decoded
    exact .inl rfl
  · exact .inr ⟨w, decoded⟩

theorem yields_list (h : (list element).Yields v) : ∃ vs, v = .seq vs ∧ ∀ v ∈ vs, element.Yields v := by
  obtain ⟨w, decoded⟩ := h
  obtain ⟨ws, vs, rfl, inside, rfl⟩ := decode_list.mp decoded
  refine ⟨vs, rfl, fun v hv => ?_⟩
  obtain ⟨w, -, first⟩ := exists_of_forall₂ (List.Forall₂.flip (mapItems_eq_ok.mp inside)) v hv
  exact ⟨w, first⟩

theorem yields_map (h : (map key value).Yields v) :
    ∃ entries, v = .map entries ∧ ∀ e ∈ entries, key.Yields e.1 ∧ value.Yields e.2 := by
  obtain ⟨w, decoded⟩ := h
  obtain ⟨ws, entries, rfl, inside, rfl⟩ := decode_map.mp decoded
  refine ⟨entries, rfl, fun e he => ?_⟩
  obtain ⟨p, -, first, second⟩ := exists_of_forall₂ (List.Forall₂.flip (mapEntries_eq_ok.mp inside)) e he
  exact ⟨⟨p.1, first⟩, p.2, second⟩

theorem decodeItems_yield (size : ds.length = ws.length) {i : Nat} (decoded : decodeItems i ds ws = .ok vs) :
    List.Forall₂ Yields ds vs := by
  induction ds generalizing ws vs i with
  | nil =>
      cases ws with
      | nil =>
          cases decoded
          exact .nil
      | cons w ws => cases size
  | cons d ds ih =>
      cases ws with
      | nil => cases size
      | cons w ws =>
          obtain ⟨v, vs, first, rest, rfl⟩ := decodeItems_cons.mp decoded
          exact .cons ⟨w, first⟩ (ih (Nat.succ.inj size) rest)

theorem yields_tuple (h : (tuple ds).Yields v) : ∃ vs, v = .seq vs ∧ List.Forall₂ Yields ds vs := by
  obtain ⟨w, decoded⟩ := h
  obtain ⟨ws, vs, rfl, size, inside, rfl⟩ := decode_tuple.mp decoded
  exact ⟨vs, rfl, decodeItems_yield size inside⟩

theorem yields_record (h : (record name fields).Yields v) :
    ∃ vs, v = .record ⟨name, fields⟩ vs ∧ List.Forall₂ Yields (fields.map Prod.snd) vs := by
  obtain ⟨w, decoded⟩ := h
  obtain ⟨ws, vs, rfl, size, inside, rfl⟩ := decode_fields.mp decoded
  refine ⟨vs, rfl, decodeItems_yield ?_ ((decodeFields_eq_ok 0).mp inside)⟩
  rwa [List.length_map]

end

end Descriptor

/-! ## Words -/

def isWordChar (c : Char) : Bool := Descriptor.isNameRest c || c == '-'

section
variable {t u : List Char}

theorem not_isWordChar {r : List Char} (h : Behind r) : ∀ c ∈ r.head?, isWordChar c = false := by
  have none : closers.all (fun c => isWordChar c == false) = true := by decide
  exact fun c hc => eq_of_beq (List.all_eq_true.mp none c (h c hc))

theorem Told.of_words (ht : ∀ c ∈ t, isWordChar c = true) (hu : ∀ c ∈ u, isWordChar c = true) :
    Told t u (t = u) :=
  fun _ _ hr hs same => span_eq ht hu (not_isWordChar hr) (not_isWordChar hs) same

theorem opens_word (h : ∀ c ∈ t, isWordChar c = true) (full : t ≠ []) : Opens t := by
  cases t with
  | nil => exact absurd rfl full
  | cons c t =>
      refine ⟨c, t, rfl, fun closing => ?_⟩
      have none := not_isWordChar (behind_cons closing []) c rfl
      rw [h c (.head _)] at none
      cases none

theorem isWordChar_of_isName {name : String} (h : Descriptor.IsName name) :
    ∀ c ∈ name.toList, isWordChar c = true := by
  obtain ⟨first, rest, split, start, others⟩ := Descriptor.isName_iff.mp h
  rw [split]
  refine List.forall_mem_cons.mpr ⟨?_, fun c hc => ?_⟩
  · rw [isWordChar, Descriptor.isNameRest_of_isNameStart start]
    rfl
  · rw [isWordChar, others c hc]
    rfl

theorem opens_name {name : String} (h : Descriptor.IsName name) : Opens name.toList := by
  refine opens_word (isWordChar_of_isName h) ?_
  obtain ⟨first, rest, split, -⟩ := h
  rw [split]
  exact List.cons_ne_nil _ _

theorem isWordChar_toString (n : Int) : ∀ c ∈ (toString n).toList, isWordChar c = true := by
  intro c hc
  rcases Text.mem_toString hc with rfl | digit
  · decide
  · simp [isWordChar, Descriptor.isNameRest, Char.isAlphanum, digit]

end

namespace Value

theorem text_of_integer {v : Value} {n : Int} (number : v.integer? = some n) : v.text = toString n := by
  rcases integer?_eq_some.mp number with ⟨m, rfl, rfl⟩ | ⟨m, rfl, rfl⟩
  · rfl
  · rfl

theorem texts_eq (items : List Value) : texts items = items.map text := by
  induction items with
  | nil => rfl
  | cons item items ih => rw [texts, ih, List.map_cons]

theorem entryTexts_eq (entries : List (Value × Value)) :
    entryTexts entries = entries.map fun e => e.1.text ++ ": " ++ e.2.text := by
  induction entries with
  | nil => rfl
  | cons e entries ih => rw [entryTexts, ih, List.map_cons]

theorem fieldTexts_eq (fields : List (String × Descriptor)) (values : List Value) :
    fieldTexts fields values = ((fields.map Prod.fst).zip values).map fun f => f.1 ++ ": " ++ f.2.text := by
  induction fields generalizing values with
  | nil => cases values <;> rfl
  | cons field fields ih =>
      cases values with
      | nil => rfl
      | cons value values => rw [fieldTexts, ih, List.map_cons, List.zip_cons_cons, List.map_cons]

theorem toList_text_seq (items : List Value) :
    (seq items).text.toList = '[' :: ((", ".intercalate (items.map text)).toList ++ [']']) := by
  simp [text, texts_eq]

theorem toList_text_map (entries : List (Value × Value)) : (map entries).text.toList =
    '\x7b' :: ((", ".intercalate (entries.map fun e => e.1.text ++ ": " ++ e.2.text)).toList ++ ['\x7d']) := by
  simp [text, entryTexts_eq]

theorem toList_text_record (type : RecordType) (values : List Value) :
    (record type values).text.toList = type.name.toList ++ '\x7b' ::
      ((", ".intercalate ((type.fieldNames.zip values).map fun f => f.1 ++ ": " ++ f.2.text)).toList ++
        ['\x7d']) := by
  simp [text, fieldTexts_eq, RecordType.fieldNames]

end Value

namespace Descriptor

/-! ## Values of legible types -/

section
variable {d inner element key value : Descriptor} {ds : List Descriptor} {name : String}
  {fields : List (String × Descriptor)} {v u : Value} {vs us : List Value}

/-- The texts of the two values begin one text only if the values are the same. -/
def Reads (v u : Value) : Prop := Told v.text.toList u.text.toList (v.same u = true)

theorem reads_words (hv : ∀ c ∈ v.text.toList, isWordChar c = true)
    (hu : ∀ c ∈ u.text.toList, isWordChar c = true) (same : v.text = u.text → v.same u = true) : Reads v u :=
  (Told.of_words hv hu).imp fun equal => same (String.toList_inj.mp equal)

theorem yields_int {signed : Bool} {width : IntWidth} (h : (int signed width).Yields v) :
    ∃ n, v.integer? = some n := by
  obtain ⟨w, decoded⟩ := h
  obtain ⟨n, -, -, rfl⟩ := decode_int.mp decoded
  cases signed with
  | true => exact ⟨_, rfl⟩
  | false => exact ⟨_, rfl⟩

theorem isWordChar_integer {n : Int} (number : v.integer? = some n) :
    ∀ c ∈ v.text.toList, isWordChar c = true := by
  rw [Value.text_of_integer number]
  exact isWordChar_toString n

theorem isWordChar_bool (b : Bool) : ∀ c ∈ (Value.bool b).text.toList, isWordChar c = true :=
  List.all_eq_true.mp (by cases b <;> decide)

theorem isWordChar_nil : ∀ c ∈ Value.nil.text.toList, isWordChar c = true :=
  List.all_eq_true.mp (by decide)

theorem opens_text (legible : d.isLegible = true) (h : d.Yields v) : Opens v.text.toList := by
  induction d using Descriptor.induction with
  | bool =>
      obtain ⟨b, rfl⟩ := yields_bool h
      exact opens_word (isWordChar_bool b) (by cases b <;> decide)
  | int signed width =>
      obtain ⟨n, number⟩ := yields_int h
      refine opens_word (isWordChar_integer number) ?_
      rw [Value.text_of_integer number]
      exact Text.toString_ne_nil n
  | tuple items ih =>
      obtain ⟨vs, rfl, -⟩ := yields_tuple h
      rw [Value.toList_text_seq]
      exact ⟨'[', _, rfl, by decide⟩
  | record name fields ih =>
      obtain ⟨vs, rfl, -⟩ := yields_record h
      rw [Value.toList_text_record]
      exact (opens_name (of_decide_eq_true (all_record.mp legible).1).1).append _
  | nullable inner ih =>
      rcases yields_nullable h with rfl | h
      · exact opens_word isWordChar_nil (by decide)
      · exact ih (all_nullable.mp legible).2 h
  | list element ih =>
      obtain ⟨vs, rfl, -⟩ := yields_list h
      rw [Value.toList_text_seq]
      exact ⟨'[', _, rfl, by decide⟩
  | map key value _ _ =>
      obtain ⟨entries, rfl, -⟩ := yields_map h
      rw [Value.toList_text_map]
      exact ⟨'\x7b', _, rfl, by decide⟩
  | float | string | raw | object => cases legible
  | unit =>
      obtain rfl := yields_unit h
      exact opens_word isWordChar_nil (by decide)

theorem reads_nil (legible : d.isLegible = true) (h : d.Yields v) : Reads .nil v := by
  induction d using Descriptor.induction with
  | bool =>
      obtain ⟨b, rfl⟩ := yields_bool h
      refine reads_words isWordChar_nil (isWordChar_bool b) fun same => absurd same ?_
      cases b <;> decide
  | int signed width =>
      obtain ⟨n, number⟩ := yields_int h
      refine reads_words isWordChar_nil (isWordChar_integer number) fun same => ?_
      have letter : 'N' ∈ (toString n).toList := by
        rw [← Value.text_of_integer number, ← same]
        decide
      rcases Text.mem_toString letter with sign | digit
      · cases sign
      · cases digit
  | tuple items ih =>
      obtain ⟨vs, rfl, -⟩ := yields_tuple h
      rw [Reads, Value.toList_text_seq]
      exact .of_ne (by decide) _ _
  | record name fields ih =>
      obtain ⟨vs, rfl, -⟩ := yields_record h
      have named := (of_decide_eq_true (all_record.mp legible).1).1
      intro r s hr _ same
      rw [Value.toList_text_record, List.append_assoc] at same
      -- A word ends before the brace, but no brace is behind nil.
      obtain ⟨-, rfl⟩ := span_eq isWordChar_nil (isWordChar_of_isName named) (not_isWordChar hr)
        (by rintro _ ⟨⟩; decide) same
      exact absurd (hr _ rfl) (by decide)
  | nullable inner ih =>
      rcases yields_nullable h with rfl | h
      · exact .refl _ rfl
      · exact ih (all_nullable.mp legible).2 h
  | list element ih =>
      obtain ⟨vs, rfl, -⟩ := yields_list h
      rw [Reads, Value.toList_text_seq]
      exact .of_ne (by decide) _ _
  | map key value _ _ =>
      obtain ⟨entries, rfl, -⟩ := yields_map h
      rw [Reads, Value.toList_text_map]
      exact .of_ne (by decide) _ _
  | float | string | raw | object => cases legible
  | unit =>
      obtain rfl := yields_unit h
      exact .refl _ rfl

theorem Reads.symm (h : Reads v u) : Reads u v := by
  refine (Told.symm h).imp fun same => ?_
  rwa [Value.same_comm]

theorem seq_reads (each : ∀ (i : Nat) (v u : Value), vs[i]? = some v → us[i]? = some u → Reads v u)
    (hvs : ∀ v ∈ vs, Opens v.text.toList) (hus : ∀ u ∈ us, Opens u.text.toList) :
    Reads (.seq vs) (.seq us) := by
  have told := listed_told ']' (by decide) (by decide) each hvs hus
  rw [Reads, Value.toList_text_seq, Value.toList_text_seq]
  exact (told.imp Value.sameItems_iff.mpr).prepend ['[']

theorem yields_at (h : List.Forall₂ Yields ds vs) {i : Nat} (found : vs[i]? = some v) :
    ∃ d, ds[i]? = some d ∧ d.Yields v := by
  induction h generalizing i with
  | nil => cases found
  | cons first _ ih =>
      cases i with
      | zero =>
          cases found
          exact ⟨_, rfl, first⟩
      | succ i => exact ih found

/-- Items of one place are of one type. -/
theorem items_read (ih : ∀ d ∈ ds, ∀ v u, d.Yields v → d.Yields u → Reads v u)
    (hvs : List.Forall₂ Yields ds vs) (hus : List.Forall₂ Yields ds us) {i : Nat} (hv : vs[i]? = some v)
    (hu : us[i]? = some u) : Reads v u := by
  obtain ⟨d, found, hv⟩ := yields_at hvs hv
  obtain ⟨e, same, hu⟩ := yields_at hus hu
  rw [found] at same
  cases same
  exact ih d (List.mem_of_getElem? found) v u hv hu

theorem opens_texts (legible : ∀ d ∈ ds, d.isLegible = true) (h : List.Forall₂ Yields ds vs) :
    ∀ v ∈ vs, Opens v.text.toList := by
  intro v hv
  obtain ⟨d, hd, yields⟩ := exists_of_forall₂ h.flip v hv
  exact opens_text (legible d hd) yields

theorem record_reads {type : RecordType} (named : ∀ n ∈ type.fieldNames, IsName n)
    (each : ∀ (i : Nat) (v u : Value), vs[i]? = some v → us[i]? = some u → Reads v u)
    (hvs : vs.length = type.fields.length) (hus : us.length = type.fields.length) :
    Reads (.record type vs) (.record type us) := by
  have opens (values : List Value) :
      ∀ f ∈ type.fieldNames.zip values, Opens (f.1 ++ ": " ++ f.2.text).toList := by
    intro f hf
    rw [String.toList_append, String.toList_append, List.append_assoc]
    exact (opens_name (named f.1 (List.of_mem_zip hf).1)).append _
  have told := listed_told (R := fun f g => f.2.same g.2 = true) '\x7d' (by decide) (by decide)
    (fun i f g hf hg => ?_) (opens vs) (opens us)
  · rw [Reads, Value.toList_text_record, Value.toList_text_record, Value.same_record]
    refine ((told.imp fun fields => ?_).prepend ['\x7b']).prepend type.name.toList
    have values {items : List Value} (size : items.length = type.fields.length) :
        (type.fieldNames.zip items).map Prod.snd = items :=
      List.map_snd_zip (by rw [size, RecordType.fieldNames, List.length_map])
    rw [Value.sameItems_iff, ← values hvs, ← values hus, List.forall₂_map_left_iff,
      List.forall₂_map_right_iff]
    exact fields
  · obtain ⟨nf, hf⟩ := List.getElem?_zip_eq_some.mp hf
    obtain ⟨ng, hg⟩ := List.getElem?_zip_eq_some.mp hg
    rw [nf] at ng
    have name : f.1 = g.1 := Option.some.inj ng
    have value := (each i f.2 g.2 hf hg).prepend (f.1 ++ ": ").toList
    rw [← name]
    simpa only [String.toList_append] using value

theorem map_reads {es fs : List (Value × Value)}
    (each : ∀ e ∈ es, ∀ f ∈ fs, Reads e.1 f.1 ∧ Reads e.2 f.2)
    (hes : ∀ e ∈ es, Opens e.1.text.toList) (hfs : ∀ f ∈ fs, Opens f.1.text.toList) :
    Reads (.map es) (.map fs) := by
  have opens {entries : List (Value × Value)} (keys : ∀ e ∈ entries, Opens e.1.text.toList) :
      ∀ e ∈ entries, Opens (e.1.text ++ ": " ++ e.2.text).toList := by
    intro e he
    rw [String.toList_append, String.toList_append, List.append_assoc]
    exact (keys e he).append _
  have told := listed_told (R := fun e f => e.1.same f.1 = true ∧ e.2.same f.2 = true) '\x7d' (by decide)
    (by decide) (fun i e f he hf => ?_) (opens hes) (opens hfs)
  · rw [Reads, Value.toList_text_map, Value.toList_text_map]
    exact (told.imp Value.sameEntries_iff.mpr).prepend ['\x7b']
  · obtain ⟨key, value⟩ := each e (List.mem_of_getElem? he) f (List.mem_of_getElem? hf)
    have colon (t r : List Char) : Behind (": ".toList ++ t ++ r) := behind_cons (by decide) _
    simp only [String.toList_append, List.append_assoc]
    exact key.append (value.prepend ": ".toList) (colon _) (colon _)

/-- Values of a legible type are told by their texts, wherever these stand. -/
theorem reads {d : Descriptor} {v u : Value} (legible : d.isLegible = true) (hv : d.Yields v)
    (hu : d.Yields u) : Reads v u := by
  induction d using Descriptor.induction generalizing v u with
  | bool =>
      obtain ⟨b, rfl⟩ := yields_bool hv
      obtain ⟨c, rfl⟩ := yields_bool hu
      refine reads_words (isWordChar_bool b) (isWordChar_bool c) fun same => ?_
      revert same
      cases b <;> cases c <;> decide
  | int signed width =>
      obtain ⟨n, number⟩ := yields_int hv
      obtain ⟨m, number'⟩ := yields_int hu
      refine reads_words (isWordChar_integer number) (isWordChar_integer number') fun same => ?_
      rw [Value.text_of_integer number, Value.text_of_integer number'] at same
      obtain rfl := Text.toString_inj same
      exact Value.same_of_integer number number'
  | tuple items ih =>
      obtain ⟨vs, rfl, hvs⟩ := yields_tuple hv
      obtain ⟨us, rfl, hus⟩ := yields_tuple hu
      have inside := (all_tuple.mp legible).2
      exact seq_reads (fun i v u => items_read (fun d hd v u => ih d hd (inside d hd)) hvs hus)
        (opens_texts inside hvs) (opens_texts inside hus)
  | record name fields ih =>
      obtain ⟨vs, rfl, hvs⟩ := yields_record hv
      obtain ⟨us, rfl, hus⟩ := yields_record hu
      obtain ⟨named, inside⟩ := all_record.mp legible
      have size {vs : List Value} (h : List.Forall₂ Yields (fields.map Prod.snd) vs) :
          vs.length = fields.length := by
        rw [← h.length_eq, List.length_map]
      exact record_reads (List.forall_mem_map.mpr (of_decide_eq_true named).2)
        (fun i v u => items_read (fun d hd v u => ih d hd (inside d hd)) hvs hus) (size hvs) (size hus)
  | nullable inner ih =>
      have inside := (all_nullable.mp legible).2
      rcases yields_nullable hv with rfl | hv
      · exact reads_nil legible hu
      · rcases yields_nullable hu with rfl | hu
        · exact (reads_nil inside hv).symm
        · exact ih inside hv hu
  | list element ih =>
      obtain ⟨vs, rfl, hvs⟩ := yields_list hv
      obtain ⟨us, rfl, hus⟩ := yields_list hu
      have inside := (all_list.mp legible).2
      refine seq_reads (fun i v u hv hu => ?_) (fun v hv => opens_text inside (hvs v hv))
        fun u hu => opens_text inside (hus u hu)
      exact ih inside (hvs v (List.mem_of_getElem? hv)) (hus u (List.mem_of_getElem? hu))
  | map key value ihk ihv =>
      obtain ⟨es, rfl, hes⟩ := yields_map hv
      obtain ⟨fs, rfl, hfs⟩ := yields_map hu
      obtain ⟨-, hkey, hvalue⟩ := all_map.mp legible
      refine map_reads (fun e he f hf => ?_) (fun e he => opens_text hkey (hes e he).1)
        fun f hf => opens_text hkey (hfs f hf).1
      exact ⟨ihk hkey (hes e he).1 (hfs f hf).1, ihv hvalue (hes e he).2 (hfs f hf).2⟩
  | float | string | raw | object => cases legible
  | unit =>
      obtain rfl := yields_unit hv
      obtain rfl := yields_unit hu
      exact .refl _ rfl

/-- Values of a legible type that have one text are the same. -/
theorem same_of_legible_text (legible : d.isLegible = true) (hv : d.Yields v) (hu : d.Yields u)
    (text : v.text = u.text) : v.same u = true :=
  (reads legible hv hu [] [] nofun nofun (by rw [text])).1

end

end Descriptor

end PackRpc
