import MintSale.Json.Codec
import MintSale.Proofs.Json.Text

/-!
# What codecs keep

A codec keeps a value if it reads the value from what it has written for it. Codecs that are put
together keep what their parts keep.
-/

namespace MintSale

namespace Json

/-! ## Results -/

variable {α β : Type}

@[simp] theorem ok_bind (a : α) (f : α → Except Fault β) : (Except.ok a >>= f) = f a :=
  rfl

@[simp] theorem ok_map (a : α) (f : α → β) : (Except.ok a : Except Fault α).map f = .ok (f a) :=
  rfl

theorem bind_eq_ok {x : Except Fault α} {f : α → Except Fault β} {b : β} :
    (x >>= f) = .ok b ↔ ∃ a, x = .ok a ∧ f a = .ok b := by
  cases x with
  | error fault => simp [bind, Except.bind]
  | ok a => simp

theorem map_eq_ok {x : Except Fault α} {f : α → β} {b : β} :
    x.map f = .ok b ↔ ∃ a, x = .ok a ∧ f a = b := by
  cases x with
  | error fault => simp [Except.map]
  | ok a => simp

end Json

namespace Codec

variable {α β : Type} {c : Codec α} {depth : Nat}

/-- A codec writes a value as something that has a text and does not nest too deep, and reads it
back wherever there is room for that. -/
structure Keeps (c : Codec α) (depth : Nat) (a : α) : Prop where
  nests : (c.write a).Nests depth
  read_write : ∀ room, depth < room → c.read room (c.write a) = .ok a

/-- A codec never writes `null`. -/
def IsSolid (c : Codec α) : Prop :=
  ∀ a, c.write a ≠ .null

/-- A value that a codec keeps is decoded from its text. -/
theorem Keeps.decode_encode {a : α} (h : c.Keeps depth a) (hdepth : depth < levels) :
    c.decode (c.encode a) = .ok a := by
  have hread := h.read_write levels hdepth
  simp [decode, encode, Json.read_print h.nests, hread, Json.skipBlanks]

/-! ## Single values -/

theorem string_keeps (s : String) : string.Keeps depth s :=
  ⟨.string s, fun _ _ => rfl⟩

theorem string_isSolid : string.IsSolid :=
  fun _ => nofun

theorem bool_keeps (b : Bool) : bool.Keeps depth b :=
  ⟨.bool b, fun _ _ => rfl⟩

theorem uint64_keeps (n : UInt64) : uint64.Keeps depth n := by
  have hlt : n.toNat < UInt64.size := n.toNat_lt
  refine ⟨.int (by omega) (by omega), fun _ _ => ?_⟩
  have hbounds : (0 : Int) ≤ n.toNat ∧ (n.toNat : Int) < UInt64.size := by omega
  simp only [uint64, Json.nat, if_pos hbounds, Int.toNat_natCast, UInt64.ofNat_toNat]

theorem uint64_isSolid : uint64.IsSolid :=
  fun _ => nofun

theorem uint8_keeps (n : UInt8) : uint8.Keeps depth n := by
  have hlt : n.toNat < UInt8.size := n.toNat_lt
  have hsize : UInt8.size ≤ UInt64.size := by decide
  refine ⟨.int (by omega) (by omega), fun _ _ => ?_⟩
  have hbounds : (0 : Int) ≤ n.toNat ∧ (n.toNat : Int) < UInt8.size := by omega
  simp only [uint8, Json.nat, if_pos hbounds, Int.toNat_natCast, UInt8.ofNat_toNat]

theorem through_keeps {view : β → α} {of? : α → Option β} {b : β} (h : c.Keeps depth (view b))
    (hview : of? (view b) = some b) : (c.through view of?).Keeps depth b := by
  refine ⟨h.nests, fun room hroom => ?_⟩
  simp [through, h.read_write room hroom, hview]

theorem option_keeps (hsolid : c.IsSolid) {o : Option α} (h : ∀ a, o = some a → c.Keeps depth a) :
    c.option.Keeps depth o := by
  cases o with
  | none => exact ⟨.null, fun _ _ => rfl⟩
  | some a =>
      have ha := h a rfl
      refine ⟨ha.nests, fun room hroom => ?_⟩
      have hread := ha.read_write room hroom
      have hnull := hsolid a
      simp [option, hread]

theorem mapM_write {as : List α} {room : Nat} (h : ∀ a ∈ as, c.read room (c.write a) = .ok a) :
    (as.map c.write).mapM (c.read room) = .ok as := by
  induction as with
  | nil => rfl
  | cons a as ih =>
      have ha := h a List.mem_cons_self
      have has := ih fun x hx => h x (List.mem_cons_of_mem a hx)
      simp [List.mapM_cons, ha, has, bind, Except.bind, pure, Except.pure]

theorem list_keeps {as : List α} (h : ∀ a ∈ as, c.Keeps depth a) : c.list.Keeps (depth + 1) as := by
  constructor
  · refine .array fun item hitem => ?_
    obtain ⟨a, ha, rfl⟩ := List.mem_map.mp hitem
    exact (h a ha).nests
  · intro room hroom
    have hdescend : Json.descend room = .ok (room - 1) := if_neg (by omega)
    have hread := mapM_write fun a ha => (h a ha).read_write (room - 1) (by omega)
    simpa [list, hdescend] using hread

theorem name_keeps [DecidableEq α] {names : List (α × String)} {a : α}
    (h : (names.find? fun entry => entry.2 == (names.lookup a).getD "").map (·.1) = some a) :
    (name names).Keeps depth a := by
  refine ⟨.string _, fun room hroom => ?_⟩
  obtain ⟨entry, hentry, rfl⟩ := Option.map_eq_some_iff.mp h
  simp [name, Json.text, hentry]

/-! ## What is read -/

theorem of_through_read {view : β → α} {of? : α → Option β} {room : Nat} {j : Json} {b : β}
    (h : (c.through view of?).read room j = .ok b) : ∃ a, of? a = some b := by
  obtain ⟨a, -, h⟩ := Json.bind_eq_ok.mp h
  cases hb : of? a with
  | none => simp [hb] at h
  | some b' => exact ⟨a, by simpa [hb] using h⟩

theorem of_option_read {room : Nat} {j : Json} {a : α} (h : c.option.read room j = .ok (some a)) :
    ∃ room j, c.read room j = .ok a := by
  simp only [option] at h
  split at h
  · simp at h
  · obtain ⟨a', hread, ha⟩ := Json.map_eq_ok.mp h
    obtain rfl := Option.some.inj ha
    exact ⟨room, j, hread⟩

end Codec

/-! ## Records -/

/-- The members of a record in the order in which they are written. -/
def Json.marked (members : List (String × Json)) : List (Option String × Json) :=
  members.map fun (key, value) => (some key, value)

/-- A field either leaves a value out that it has for a missing key, or keeps it. -/
def Field.Keeps {α : Type} (field : Field α) (depth : Nat) (a : α) : Prop :=
  if field.omits a then field.whenAbsent = some a else field.codec.Keeps depth a

/-- A key that is only there or not keeps which of the two it is. -/
theorem Field.presence_keeps {key : String} {depth : Nat} (b : Bool) :
    (Field.presence key).Keeps depth b := by
  cases b with
  | false => exact rfl
  | true => exact ⟨.null, fun _ _ => rfl⟩

/-- A value that a field can give: its codec reads it, or it stands for a missing field. -/
def Field.Gives {α : Type} (field : Field α) (a : α) : Prop :=
  (∃ room j, field.codec.read room j = .ok a) ∨ field.whenAbsent = some a ∨
    field.whenShort = some a

theorem Field.required_gives {α : Type} {key : String} {c : Codec α} {a : α}
    (h : (Field.required key c).Gives a) : ∃ room j, c.read room j = .ok a := by
  rcases h with hread | habsent | hshort
  · exact hread
  · simp [Field.required] at habsent
  · simp [Field.required] at hshort

theorem Field.optional_gives {α : Type} {key : String} {c : Codec α} {a : α}
    (h : (Field.optional key c).Gives (some a)) : ∃ room j, c.read room j = .ok a := by
  rcases h with ⟨room, j, hread⟩ | habsent | hshort
  · exact Codec.of_option_read hread
  · simp [Field.optional] at habsent
  · simp [Field.optional] at hshort

namespace Fields

variable {types : List Type}

/-- The keys of the fields. -/
def keys : {types : List Type} → Fields types → List String
  | _, .nil => []
  | _, .cons field rest => field.key :: rest.keys

/-- Every field keeps its value. -/
def Keeps (depth : Nat) : {types : List Type} → Fields types → Row types → Prop
  | _, .nil, _ => True
  | _, .cons field rest, (a, row) => field.Keeps depth a ∧ rest.Keeps depth row

/-- Every field can give its value. -/
def Gives : {types : List Type} → Fields types → Row types → Prop
  | _, .nil, _ => True
  | _, .cons field rest, (a, row) => field.Gives a ∧ rest.Gives row

/-- Every field can give what a draft has of it. -/
def Drafts : {types : List Type} → Fields types → Draft types → Prop
  | _, .nil, _ => True
  | _, .cons field rest, (slot, draft) => (∀ a, slot = some a → field.Gives a) ∧ rest.Drafts draft

/-- The draft of the values that are written. -/
def draft : {types : List Type} → Fields types → Row types → Draft types
  | _, .nil, _ => ()
  | _, .cons field rest, (a, row) => (if field.omits a then none else some a, rest.draft row)

/-! ### Reading what was written -/

theorem key_of_mem_members {fields : Fields types} {row : Row types} {member : String × Json}
    (h : member ∈ fields.members row) : member.1 ∈ fields.keys := by
  induction fields with
  | nil => simp [members] at h
  | cons field rest ih =>
      obtain ⟨a, row⟩ := row
      rw [members] at h
      split at h
      · exact List.mem_cons_of_mem _ (ih h)
      · rcases List.mem_cons.mp h with rfl | h
        · exact List.mem_cons_self
        · exact List.mem_cons_of_mem _ (ih h)

/-- Members for other fields leave a field as it is. -/
theorem putAll_of_ne {α : Type} {field : Field α} (rest : Fields types) (room : Nat)
    {members : List (String × Json)} (h : ∀ member ∈ members, member.1 ≠ field.key)
    (slot : Option α) (draft : Draft types) :
    (cons field rest).putAll room (Json.marked members) (slot, draft) =
      (rest.putAll room (Json.marked members) draft).map fun draft => (slot, draft) := by
  induction members generalizing draft with
  | nil => rfl
  | cons member members ih =>
      obtain ⟨key, value⟩ := member
      have hkey : field.key ≠ key := (h (key, value) List.mem_cons_self).symm
      have hrest := ih fun x hx => h x (List.mem_cons_of_mem _ hx)
      simp only [Json.marked, List.map_cons, putAll, put, if_neg hkey] at hrest ⊢
      cases hput : rest.put room key value draft with
      | error fault => rfl
      | ok draft' => exact hrest draft'

theorem putAll_members {depth room : Nat} (hroom : depth < room) {fields : Fields types}
    (hkeys : fields.keys.Nodup) {row : Row types} (h : fields.Keeps depth row) :
    fields.putAll room (Json.marked (fields.members row)) fields.blank =
      .ok (fields.draft row) := by
  induction fields with
  | nil => rfl
  | cons field rest ih =>
      obtain ⟨a, row⟩ := row
      obtain ⟨hnew, hkeys⟩ := List.nodup_cons.mp hkeys
      obtain ⟨hfield, hrow⟩ := h
      have hrest := ih hkeys hrow
      -- The members behind the first are for other fields, as no key stands twice.
      have hother : ∀ member ∈ rest.members row, member.1 ≠ field.key := by
        intro member hmember hsame
        exact hnew (hsame ▸ key_of_mem_members hmember)
      rw [Field.Keeps] at hfield
      rw [members, draft, blank]
      split at hfield
      · next homits =>
        rw [if_pos homits, if_pos homits, putAll_of_ne rest room hother, hrest]
        rfl
      · next homits =>
        have hread := hfield.read_write room hroom
        have hput : (cons field rest).put room field.key (field.codec.write a)
            (none, rest.blank) = .ok (some a, rest.blank) := by
          simp [put, hread]
        have hall := putAll_of_ne rest room hother (some a) rest.blank
        rw [if_neg homits, if_neg homits, Json.marked, List.map_cons]
        simp only [putAll, hput]
        refine hall.trans ?_
        rw [hrest]
        rfl

theorem finish_draft {depth : Nat} {fields : Fields types} {row : Row types}
    (h : fields.Keeps depth row) : fields.finish (fields.draft row) = .ok row := by
  induction fields with
  | nil => rfl
  | cons field rest ih =>
      obtain ⟨a, row⟩ := row
      obtain ⟨hfield, hrow⟩ := h
      have hrest := ih hrow
      have hvalue : ((if field.omits a then none else some a) <|> field.whenAbsent) = some a := by
        rw [Field.Keeps] at hfield
        split at hfield
        · next homits => simp [homits, hfield]
        · next homits => simp [homits]
      simp only [finish, draft, hvalue, hrest, Json.ok_bind]

theorem members_nests {depth : Nat} {fields : Fields types} {row : Row types}
    (h : fields.Keeps depth row) : ∀ member ∈ fields.members row, member.2.Nests depth := by
  induction fields with
  | nil => simp [members]
  | cons field rest ih =>
      obtain ⟨a, row⟩ := row
      obtain ⟨hfield, hrow⟩ := h
      rw [Field.Keeps] at hfield
      rw [members]
      split at hfield
      · next homits =>
        rw [if_pos homits]
        exact ih hrow
      · next homits =>
        rw [if_neg homits]
        intro member hmember
        rcases List.mem_cons.mp hmember with rfl | hmember
        · exact hfield.nests
        · exact ih hrow member hmember

theorem record_nests {depth : Nat} {members : List (String × Json)}
    (h : ∀ member ∈ members, member.2.Nests depth) : (Json.record members).Nests (depth + 1) := by
  refine .object (fun member hmember => ?_) (fun member hmember => ?_)
  · obtain ⟨⟨key, value⟩, -, rfl⟩ := List.mem_map.mp hmember
    rfl
  · obtain ⟨⟨key, value⟩, hmem, rfl⟩ := List.mem_map.mp hmember
    exact h (key, value) hmem

theorem read_members {depth room : Nat} (hroom : depth + 1 < room) {fields : Fields types}
    (hkeys : fields.keys.Nodup) {row : Row types} (h : fields.Keeps depth row) :
    fields.read room (.object (Json.marked (fields.members row))) = .ok row := by
  have hdescend : Json.descend room = .ok (room - 1) := if_neg (by omega)
  have hall := putAll_members (show depth < room - 1 by omega) hkeys h
  simp [read, hdescend, hall, finish_draft h]

/-- A record of fields with different keys is kept if all its fields are. -/
theorem codec_keeps {α : Type} {depth : Nat} {fields : Fields types} {toRow : α → Row types}
    {ofRow : Row types → α} (hkeys : fields.keys.Nodup) {a : α}
    (h : fields.Keeps depth (toRow a)) (hrow : ofRow (toRow a) = a) :
    (fields.codec toRow ofRow).Keeps (depth + 1) a := by
  refine ⟨record_nests (members_nests h), fun room hroom => ?_⟩
  have hread := read_members hroom hkeys h
  rw [Json.marked] at hread
  simp [codec, Json.record, hread, hrow]

theorem codec_isSolid {α : Type} {fields : Fields types} {toRow : α → Row types}
    {ofRow : Row types → α} : (fields.codec toRow ofRow).IsSolid :=
  fun _ => nofun

/-! ### What is read -/

theorem put_drafts {fields : Fields types} {room : Nat} {key : String} {value : Json}
    {draft draft' : Draft types} (h : fields.Drafts draft)
    (hput : fields.put room key value draft = .ok draft') : fields.Drafts draft' := by
  induction fields with
  | nil => trivial
  | cons field rest ih =>
      obtain ⟨slot, draft⟩ := draft
      obtain ⟨hslot, hdraft⟩ := h
      simp only [put] at hput
      split at hput
      · cases slot with
        | some _ => simp at hput
        | none =>
            obtain ⟨a, hread, hdone⟩ := Json.bind_eq_ok.mp hput
            obtain rfl := Except.ok.inj hdone
            refine ⟨?_, hdraft⟩
            rintro a' ⟨⟩
            exact .inl ⟨room, value, hread⟩
      · obtain ⟨draft'', hrest, hdone⟩ := Json.bind_eq_ok.mp hput
        obtain rfl := Except.ok.inj hdone
        exact ⟨hslot, ih hdraft hrest⟩

theorem putAll_drafts {fields : Fields types} {room : Nat} {members : List (Option String × Json)}
    {draft draft' : Draft types} (h : fields.Drafts draft)
    (hput : fields.putAll room members draft = .ok draft') : fields.Drafts draft' := by
  induction members generalizing draft with
  | nil =>
      obtain rfl := Except.ok.inj hput
      exact h
  | cons member members ih =>
      obtain ⟨key | key, value⟩ := member
      · simp [putAll] at hput
      · obtain ⟨draft'', hfirst, hrest⟩ := Json.bind_eq_ok.mp hput
        exact ih (put_drafts h hfirst) hrest

theorem blank_drafts (fields : Fields types) : fields.Drafts fields.blank := by
  induction fields with
  | nil => trivial
  | cons field rest ih => exact ⟨by simp, ih⟩

theorem finish_gives {fields : Fields types} {draft : Draft types} (h : fields.Drafts draft)
    {row : Row types} (hfinish : fields.finish draft = .ok row) : fields.Gives row := by
  induction fields with
  | nil => trivial
  | cons field rest ih =>
      obtain ⟨slot, draft⟩ := draft
      obtain ⟨hslot, hdraft⟩ := h
      simp only [finish] at hfinish
      split at hfinish
      · simp at hfinish
      · next a ha =>
        obtain ⟨row', hrest, hdone⟩ := Json.bind_eq_ok.mp hfinish
        obtain rfl := Except.ok.inj hdone
        refine ⟨?_, ih hdraft hrest⟩
        cases slot with
        | some a' => exact hslot a (by simpa using ha)
        | none => exact .inr (.inl (by simpa using ha))

theorem ofItems_gives {fields : Fields types} {room : Nat} {items : List Json} {row : Row types}
    (h : fields.ofItems room items = .ok row) : fields.Gives row := by
  induction fields generalizing items with
  | nil => trivial
  | cons field rest ih =>
      cases items with
      | nil =>
          simp only [ofItems] at h
          split at h
          · simp at h
          · next a ha =>
            obtain ⟨row', hrest, hdone⟩ := Json.bind_eq_ok.mp h
            obtain rfl := Except.ok.inj hdone
            exact ⟨.inr (.inr ha), ih hrest⟩
      | cons item items =>
          obtain ⟨a, hread, h⟩ := Json.bind_eq_ok.mp h
          obtain ⟨row', hrest, hdone⟩ := Json.bind_eq_ok.mp h
          obtain rfl := Except.ok.inj hdone
          exact ⟨.inl ⟨room, item, hread⟩, ih hrest⟩

theorem read_gives {fields : Fields types} {room : Nat} {j : Json} {row : Row types}
    (h : fields.read room j = .ok row) : fields.Gives row := by
  cases j with
  | object members =>
      obtain ⟨room', -, h⟩ := Json.bind_eq_ok.mp h
      obtain ⟨draft, hall, hfinish⟩ := Json.bind_eq_ok.mp h
      exact finish_gives (putAll_drafts (blank_drafts fields) hall) hfinish
  | array items =>
      obtain ⟨room', -, h⟩ := Json.bind_eq_ok.mp h
      exact ofItems_gives h
  | _ => simp [read] at h

/-- Every value that the codec of a record reads is made of values that its fields can give. -/
theorem of_codec_read {α : Type} {fields : Fields types} {toRow : α → Row types}
    {ofRow : Row types → α} {room : Nat} {j : Json} {a : α}
    (h : (fields.codec toRow ofRow).read room j = .ok a) :
    ∃ row, fields.Gives row ∧ ofRow row = a := by
  obtain ⟨row, hread, hrow⟩ := Json.map_eq_ok.mp h
  exact ⟨row, read_gives hread, hrow⟩

end Fields

end MintSale
