import ConquerD.Client.Verify.RoomDurability

/-!
# What merging keeps, and the ids it cannot log

A merge keeps what was known of a room: it never gives up ownership, and never writes
an empty text over one that is not; a private room stays so under the types there are. A
second merge of the same entry finds nothing to change. All this holds of what is stored; whether an operation returns at all depends on
the ids, which every log line cuts at the twelfth byte, in the middle of a character or
not.
-/

namespace ConquerD.Client

open Std (ExtTreeMap ExtTreeSet)
open Lib.Keyed Lib.Run Lib.Slice Wire

attribute [ext] RoomEntry

namespace Rooms

/-! ## Ids that are logged -/

/-- Some characters of the id end at the twelfth byte, or it is no longer. -/
def Loggable (id : String) : Prop :=
  ∃ before after, id.toList = before ++ after ∧
    String.utf8Len before = min 12 id.utf8ByteSize

theorem isSome_logged?_iff {supernodeId roomId : String} :
    (logged? supernodeId roomId).isSome = true ↔ Loggable supernodeId ∧ Loggable roomId := by
  have hcut : ∀ id, (sliceUpTo? id 12).isSome = true ↔ Loggable id :=
    fun _ => isSome_sliceTo?_iff
  rw [← hcut, ← hcut, logged?]
  cases sliceUpTo? roomId 12 with
  | none => simp
  | some room =>
    cases sliceUpTo? supernodeId 12 with
    | none => simp
    | some supernode => simp

/-! ## One entry and another -/

/-- What is kept of a room when another entry takes its place. -/
structure Keeps (old new : RoomEntry) : Prop where
  isCreator : old.isCreator = true → new.isCreator = true
  roomName : old.roomName ≠ "" → new.roomName ≠ ""
  creatorId : old.creatorId ≠ "" → new.creatorId ≠ ""
  inviteToken : old.inviteToken ≠ "" → new.inviteToken ≠ ""
  spaceId : old.spaceId ≠ "" → new.spaceId ≠ ""
  parentId : old.parentId ≠ "" → new.parentId ≠ ""
  invitePolicy : old.invitePolicy ≠ "" → new.invitePolicy ≠ ""

/-- The room is private, and can be entered by more than its name. -/
def Guarded (e : RoomEntry) : Prop :=
  e.roomType = "private" ∧ (e.isCreator = true ∨ e.inviteToken ≠ "")

/-- The entry brings nothing that is not stored. -/
structure AddsNothing (existing entry : RoomEntry) : Prop where
  roomId : entry.roomId = existing.roomId
  supernodeId : entry.supernodeId = existing.supernodeId
  roomName : entry.roomName = existing.roomName ∨ entry.roomName = "" ∨
    (entry.roomName = entry.roomId ∧ existing.roomName ≠ "" ∧ existing.roomName ≠ existing.roomId)
  roomType : entry.roomType = existing.roomType ∨ entry.roomType = "" ∨
    (Guarded existing ∧ entry.roomType = "public")
  creatorId : entry.creatorId = existing.creatorId ∨ entry.creatorId = ""
  inviteToken : entry.inviteToken = existing.inviteToken ∨ entry.inviteToken = ""
  spaceId : entry.spaceId = existing.spaceId ∨ entry.spaceId = ""
  parentId : entry.parentId = existing.parentId ∨ entry.parentId = ""
  invitePolicy : entry.invitePolicy = existing.invitePolicy ∨ entry.invitePolicy = ""
  isCreator : entry.isCreator = true → existing.isCreator = true

section Entries

variable {old new existing entry : RoomEntry}

theorem Keeps.refl (e : RoomEntry) : Keeps e e :=
  ⟨id, id, id, id, id, id, id⟩

theorem Keeps.trans {e e' e'' : RoomEntry} (h : Keeps e e') (h' : Keeps e' e'') : Keeps e e'' :=
  ⟨h'.isCreator ∘ h.isCreator, h'.roomName ∘ h.roomName, h'.creatorId ∘ h.creatorId,
    h'.inviteToken ∘ h.inviteToken, h'.spaceId ∘ h.spaceId, h'.parentId ∘ h.parentId,
    h'.invitePolicy ∘ h.invitePolicy⟩

theorem ne_empty_of_given {given stored : String} (h : stored ≠ "") :
    (if given = "" then stored else given) ≠ "" := by
  split
  · exact h
  · next hgiven => exact hgiven

theorem given_eq_stored_iff {given stored : String} :
    (if given = "" then stored else given) = stored ↔ given = stored ∨ given = "" := by
  split
  · next hempty => simp [hempty]
  · next hgiven => simp [hgiven]

/-- The name that is stored is kept. -/
def KeepsName (existing entry : RoomEntry) : Prop :=
  entry.roomName = "" ∨
    (entry.roomName = entry.roomId ∧ existing.roomName ≠ "" ∧ existing.roomName ≠ existing.roomId)

/-- The type that is stored is kept. -/
def KeepsType (existing entry : RoomEntry) : Prop :=
  entry.roomType = "" ∨ (Guarded existing ∧ entry.roomType = "public")

instance (existing entry : RoomEntry) : Decidable (KeepsName existing entry) :=
  inferInstanceAs (Decidable (_ ∨ _))

instance (existing entry : RoomEntry) : Decidable (KeepsType existing entry) :=
  inferInstanceAs (Decidable (_ ∨ ((_ ∧ _) ∧ _)))

theorem roomName_mergeEntry (existing entry : RoomEntry) :
    (mergeEntry existing entry).roomName =
      if KeepsName existing entry then existing.roomName else entry.roomName := by
  refine if_congr ?_ rfl rfl
  simp only [KeepsName, Bool.or_eq_true, Bool.and_eq_true, beq_iff_eq, bne_iff_ne, and_assoc]

theorem roomType_mergeEntry (existing entry : RoomEntry) :
    (mergeEntry existing entry).roomType =
      if KeepsType existing entry then existing.roomType else entry.roomType := by
  refine if_congr ?_ rfl rfl
  simp only [KeepsType, Guarded, Bool.or_eq_true, Bool.and_eq_true, beq_iff_eq, bne_iff_ne]
  tauto

theorem keeps_mergeEntry (existing entry : RoomEntry) :
    Keeps existing (mergeEntry existing entry) where
  isCreator h := by
    rw [mergeEntry, h, Bool.or_true]
  roomName h := by
    rw [roomName_mergeEntry]
    split
    · exact h
    · next hgiven => exact fun hempty => hgiven (.inl hempty)
  creatorId := ne_empty_of_given
  inviteToken := ne_empty_of_given
  spaceId := ne_empty_of_given
  parentId := ne_empty_of_given
  invitePolicy := ne_empty_of_given

/-- A room that can be entered by more than its name stays private exactly under the
types there are. -/
theorem roomType_mergeEntry_iff (h : Guarded existing) :
    (mergeEntry existing entry).roomType = "private" ↔
      entry.roomType = "" ∨ entry.roomType = "public" ∨ entry.roomType = "private" := by
  rw [roomType_mergeEntry]
  by_cases hkeeps : KeepsType existing entry
  · rw [if_pos hkeeps]
    exact iff_of_true h.1 (hkeeps.imp id fun hpublic => .inl hpublic.2)
  · rw [if_neg hkeeps]
    refine ⟨fun hprivate => .inr (.inr hprivate), ?_⟩
    rintro (hempty | hpublic | hprivate)
    · exact absurd (.inl hempty) hkeeps
    · exact absurd (.inr ⟨h, hpublic⟩) hkeeps
    · exact hprivate

theorem mergeEntry_eq_iff : mergeEntry existing entry = existing ↔ AddsNothing existing entry := by
  constructor
  · intro h
    have hname := roomName_mergeEntry existing entry
    have htype := roomType_mergeEntry existing entry
    have hroom : (mergeEntry existing entry).roomId = existing.roomId := by rw [h]
    have hsupernode : (mergeEntry existing entry).supernodeId = existing.supernodeId := by rw [h]
    rw [h] at hname htype
    refine ⟨hroom, hsupernode, ?_, ?_,
      given_eq_stored_iff.mp (congrArg RoomEntry.creatorId h),
      given_eq_stored_iff.mp (congrArg RoomEntry.inviteToken h),
      given_eq_stored_iff.mp (congrArg RoomEntry.spaceId h),
      given_eq_stored_iff.mp (congrArg RoomEntry.parentId h),
      given_eq_stored_iff.mp (congrArg RoomEntry.invitePolicy h), fun hown => ?_⟩
    · split at hname
      · next hkeeps => exact .inr hkeeps
      · exact .inl hname.symm
    · split at htype
      · next hkeeps => exact .inr hkeeps
      · exact .inl htype.symm
    · have hcreator := congrArg RoomEntry.isCreator h
      rw [mergeEntry, hown, Bool.true_or] at hcreator
      exact hcreator.symm
  · intro h
    have hname : (mergeEntry existing entry).roomName = existing.roomName := by
      rw [roomName_mergeEntry]
      split
      · rfl
      · next hgiven => exact h.roomName.resolve_right hgiven
    have htype : (mergeEntry existing entry).roomType = existing.roomType := by
      rw [roomType_mergeEntry]
      split
      · rfl
      · next hgiven => exact h.roomType.resolve_right hgiven
    have hcreator : (mergeEntry existing entry).isCreator = existing.isCreator := by
      have hown := h.isCreator
      rw [mergeEntry]
      cases hgiven : entry.isCreator with
      | false => rfl
      | true => rw [Bool.true_or, hown hgiven]
    exact RoomEntry.ext h.roomId hname htype h.supernodeId (given_eq_stored_iff.mpr h.creatorId)
      (given_eq_stored_iff.mpr h.inviteToken) hcreator (given_eq_stored_iff.mpr h.spaceId)
      (given_eq_stored_iff.mpr h.parentId) (given_eq_stored_iff.mpr h.invitePolicy)

theorem given_or_empty (given stored : String) :
    given = (if given = "" then stored else given) ∨ given = "" := by
  split
  · next hempty => exact .inr hempty
  · exact .inl rfl

theorem mergeEntry_mergeEntry (existing entry : RoomEntry) :
    mergeEntry (mergeEntry existing entry) entry = mergeEntry existing entry := by
  have hname := roomName_mergeEntry existing entry
  have htype := roomType_mergeEntry existing entry
  refine mergeEntry_eq_iff.mpr ⟨rfl, rfl, ?_, ?_, given_or_empty _ _, given_or_empty _ _,
    given_or_empty _ _, given_or_empty _ _, given_or_empty _ _, fun hown => ?_⟩
  · split at hname
    · next hkept =>
      rcases hkept with hempty | ⟨hplaceholder, hstored, -⟩
      · exact .inr (.inl hempty)
      · -- the stored name is the id of this room only where its key was met in two ways
        by_cases hsame : existing.roomName = entry.roomId
        · exact .inl (by rw [hname, hsame, hplaceholder])
        · exact .inr (.inr ⟨hplaceholder, by rwa [hname], by rwa [hname]⟩)
    · exact .inl hname.symm
  · split at htype
    · next hkept =>
      rcases hkept with hempty | ⟨hguarded, hpublic⟩
      · exact .inr (.inl hempty)
      · have hkeeps := keeps_mergeEntry existing entry
        exact .inr (.inr ⟨⟨(roomType_mergeEntry_iff hguarded).mpr (.inr (.inl hpublic)),
          hguarded.2.imp hkeeps.isCreator hkeeps.inviteToken⟩, hpublic⟩)
    · exact .inl htype.symm
  · rw [mergeEntry, hown, Bool.true_or]

end Entries

/-! ## One merge -/

/-- What the entry brings is stored already. -/
def Known (m : Rooms) (entry : RoomEntry) : Prop :=
  ∃ existing, m.rooms[entry.key]? = some existing ∧ AddsNothing existing entry

/-- The tombstone of the room, too, is where it belongs. -/
def NothingToStore (m : Rooms) (entry : RoomEntry) : Prop :=
  Known m entry ∧ m.isHiddenFromSidebar entry.supernodeId entry.roomId = false

/-- What is to become of a room when an entry is merged. -/
def Unspoiled (old new : RoomEntry) : Prop :=
  Keeps old new ∧ (Guarded old → new.roomType = "private")

/-- The rooms of the one are rooms of the other, and unspoiled there. -/
def KeepsRows (m m' : Rooms) : Prop :=
  ∀ (k : String) (old : RoomEntry), m.rooms[k]? = some old →
    ∃ new, m'.rooms[k]? = some new ∧ Unspoiled old new

/-- A guarded room is given a type there is, spelt as it is, or none. -/
def TypeKept (m : Rooms) (entry : RoomEntry) : Prop :=
  ∀ existing, m.rooms[entry.key]? = some existing → Guarded existing →
    entry.roomType = "" ∨ entry.roomType = "public" ∨ entry.roomType = "private"

section Merge

variable {m : Rooms} {entry old : RoomEntry} {k : String}

theorem Unspoiled.refl (e : RoomEntry) : Unspoiled e e :=
  ⟨.refl e, fun h => h.1⟩

theorem Unspoiled.trans {e e' e'' : RoomEntry} (h : Unspoiled e e') (h' : Unspoiled e' e'') :
    Unspoiled e e'' :=
  ⟨h.1.trans h'.1, fun hguarded =>
    h'.2 ⟨h.2 hguarded, hguarded.2.imp h.1.isCreator h.1.inviteToken⟩⟩

theorem KeepsRows.of_rooms_eq {m m' : Rooms} (h : m'.rooms = m.rooms) : KeepsRows m m' :=
  fun _ old hold => ⟨old, h ▸ hold, .refl old⟩

theorem KeepsRows.trans {m m' m'' : Rooms} (h : KeepsRows m m') (h' : KeepsRows m' m'') :
    KeepsRows m m'' := by
  intro k old hold
  obtain ⟨mid, hmid, hfirst⟩ := h k old hold
  obtain ⟨new, hnew, hsecond⟩ := h' k mid hmid
  exact ⟨new, hnew, hfirst.trans hsecond⟩

theorem addsNothing_refl (e : RoomEntry) : AddsNothing e e :=
  ⟨rfl, rfl, .inl rfl, .inl rfl, .inl rfl, .inl rfl, .inl rfl, .inl rfl, .inl rfl, id⟩

theorem merged_of_some {existing : RoomEntry} (h : m.rooms[entry.key]? = some existing) :
    m.merged entry = mergeEntry existing entry := by
  rw [merged, h]

theorem merged_of_none (h : m.rooms[entry.key]? = none) : m.merged entry = entry := by
  rw [merged, h]

theorem known_iff : Known m entry ↔ m.rooms[entry.key]? = some (m.merged entry) := by
  cases hstored : m.rooms[entry.key]? with
  | none =>
    constructor
    · rintro ⟨existing, hsome, -⟩
      rw [hstored] at hsome
      cases hsome
    · exact nofun
  | some existing =>
    rw [merged_of_some hstored, Option.some_inj, eq_comm, mergeEntry_eq_iff]
    constructor
    · rintro ⟨e, hsome, hnothing⟩
      rw [hstored] at hsome
      exact Option.some_inj.mp hsome ▸ hnothing
    · exact fun hnothing => ⟨existing, hstored, hnothing⟩

theorem store_cases (m : Rooms) (entry : RoomEntry) :
    ((Loggable entry.supernodeId ∧ Loggable entry.roomId) ∧ m.store entry = .changed
      { m with deletedIds := m.deletedIds.erase entry.key, rooms := m.rooms.insert entry.key entry }) ∨
    (¬ (Loggable entry.supernodeId ∧ Loggable entry.roomId) ∧ m.store entry = .panicked
      { m with deletedIds := m.deletedIds.erase entry.key }) := by
  rw [store, ← isSome_logged?_iff]
  by_cases hlogged : (logged? entry.supernodeId entry.roomId).isSome = true
  · exact .inl ⟨hlogged, if_pos hlogged⟩
  · exact .inr ⟨hlogged, if_neg hlogged⟩

theorem mergeInMemory_cases (m : Rooms) (entry : RoomEntry) :
    (entry.supernodeId = "" ∧ m.mergeInMemory entry = .refused m) ∨
    (entry.supernodeId ≠ "" ∧ NothingToStore m entry ∧ m.mergeInMemory entry = .kept m) ∨
    (entry.supernodeId ≠ "" ∧ ¬ NothingToStore m entry ∧
      m.mergeInMemory entry = m.store (m.merged entry)) := by
  rw [mergeInMemory]
  split
  · next hempty => exact .inl ⟨hempty, rfl⟩
  · next hnamed =>
    have hnothing : (m.rooms[entry.key]? = some (m.merged entry) ∧
        m.deletedIds.contains (m.merged entry).key = false) ↔ NothingToStore m entry := by
      rw [← known_iff, key_merged]
      rfl
    dsimp only
    split
    · next h => exact .inr (.inl ⟨hnamed, hnothing.mp h, rfl⟩)
    · next h => exact .inr (.inr ⟨hnamed, fun hn => h (hnothing.mpr hn), rfl⟩)

theorem store_of_ne (m : Rooms) (entry : RoomEntry) (hk : entry.key ≠ k) :
    (m.store entry).memory.rooms[k]? = m.rooms[k]? ∧
      (k ∈ (m.store entry).memory.deletedIds ↔ k ∈ m.deletedIds) := by
  have herase : k ∈ m.deletedIds.erase entry.key ↔ k ∈ m.deletedIds := by
    rw [ExtTreeSet.mem_erase, Ne, Std.compare_eq_iff_eq, and_iff_right hk]
  rcases store_cases m entry with ⟨-, heq⟩ | ⟨-, heq⟩
  · rw [heq]
    refine ⟨?_, herase⟩
    rw [Change.memory, ExtTreeMap.getElem?_insert, if_neg fun h => hk (Std.compare_eq_iff_eq.mp h)]
  · rw [heq]
    exact ⟨rfl, herase⟩

theorem roomId_merged (entry : RoomEntry) : (m.merged entry).roomId = entry.roomId := by
  unfold merged
  split
  · rfl
  · rfl

theorem typeKept_of_known (h : Known m entry) : TypeKept m entry := by
  intro existing hstored hguarded
  obtain ⟨known, hknown, hnothing⟩ := h
  obtain rfl : known = existing := Option.some.inj (hknown.symm.trans hstored)
  rcases hnothing.roomType with hsame | hempty | ⟨-, hpublic⟩
  · exact .inr (.inr (hsame.trans hguarded.1))
  · exact .inl hempty
  · exact .inr (.inl hpublic)

theorem keepsRows_mergeInMemory_iff (m : Rooms) (entry : RoomEntry) :
    KeepsRows m (m.mergeInMemory entry).memory ↔ entry.supernodeId = "" ∨
      ¬ (Loggable entry.supernodeId ∧ Loggable entry.roomId) ∨ TypeKept m entry := by
  rcases mergeInMemory_cases m entry with ⟨hempty, heq⟩ | ⟨-, hnothing, heq⟩ | ⟨hnamed, -, heq⟩
  · rw [heq]
    exact iff_of_true (.of_rooms_eq rfl) (.inl hempty)
  · rw [heq]
    exact iff_of_true (.of_rooms_eq rfl) (.inr (.inr (typeKept_of_known hnothing.1)))
  · rw [heq]
    have hstore := store_cases m (m.merged entry)
    rw [supernodeId_merged, roomId_merged, key_merged] at hstore
    rcases hstore with ⟨hlogs, hstore⟩ | ⟨hpanics, hstore⟩
    · rw [hstore, or_iff_right hnamed, or_iff_right (not_not_intro hlogs)]
      constructor
      · intro h existing hstored hguarded
        obtain ⟨new, hnew, -, htype⟩ := h entry.key existing hstored
        rw [Change.memory, ExtTreeMap.getElem?_insert_self, merged_of_some hstored,
          Option.some_inj] at hnew
        subst hnew
        exact (roomType_mergeEntry_iff hguarded).mp (htype hguarded)
      · intro htype k old hold
        rw [Change.memory, ExtTreeMap.getElem?_insert]
        by_cases hk : entry.key = k
        · subst hk
          rw [if_pos Std.ReflCmp.compare_self, merged_of_some hold]
          exact ⟨_, rfl, keeps_mergeEntry old entry, fun hguarded =>
            (roomType_mergeEntry_iff hguarded).mpr (htype old hold hguarded)⟩
        · rw [if_neg fun h => hk (Std.compare_eq_iff_eq.mp h)]
          exact ⟨old, hold, .refl old⟩
    · rw [hstore]
      exact iff_of_true (.of_rooms_eq rfl) (.inr (.inl hpanics))

theorem mergeInMemory_of_ne (m : Rooms) (entry : RoomEntry) (hk : entry.key ≠ k) :
    (m.mergeInMemory entry).memory.rooms[k]? = m.rooms[k]? ∧
      (k ∈ (m.mergeInMemory entry).memory.deletedIds ↔ k ∈ m.deletedIds) := by
  rcases mergeInMemory_cases m entry with ⟨-, heq⟩ | ⟨-, -, heq⟩ | ⟨-, -, heq⟩
  · rw [heq]
    exact ⟨rfl, Iff.rfl⟩
  · rw [heq]
    exact ⟨rfl, Iff.rfl⟩
  · rw [heq]
    exact store_of_ne m _ (by rwa [key_merged])

/-- A second merge changes nothing, and says so. -/
def MergesOnce (m : Rooms) (entry : RoomEntry) : Prop :=
  (m.mergeInMemory entry).memory.mergeInMemory entry = .kept (m.mergeInMemory entry).memory ∨
    (m.mergeInMemory entry).memory.mergeInMemory entry = .refused (m.mergeInMemory entry).memory

theorem kept_of_nothing (hnamed : entry.supernodeId ≠ "") (h : NothingToStore m entry) :
    m.mergeInMemory entry = .kept m := by
  rcases mergeInMemory_cases m entry with ⟨hempty, -⟩ | ⟨-, -, heq⟩ | ⟨-, hnot, -⟩
  · exact absurd hempty hnamed
  · exact heq
  · exact absurd h hnot

theorem not_hidden_erase (m : Rooms) (entry : RoomEntry) (rooms : ExtTreeMap String RoomEntry) :
    isHiddenFromSidebar { m with deletedIds := m.deletedIds.erase entry.key, rooms := rooms }
      entry.supernodeId entry.roomId = false := by
  rw [isHiddenFromSidebar, ExtTreeSet.contains_erase]
  simp [RoomEntry.key]

theorem known_of_stored (m : Rooms) (entry : RoomEntry) (ids : ExtTreeSet String) :
    Known { m with deletedIds := ids, rooms := m.rooms.insert entry.key (m.merged entry) } entry := by
  refine ⟨m.merged entry, ExtTreeMap.getElem?_insert_self, ?_⟩
  cases hstored : m.rooms[entry.key]? with
  | none =>
    rw [merged_of_none hstored]
    exact addsNothing_refl entry
  | some existing =>
    rw [merged_of_some hstored]
    exact mergeEntry_eq_iff.mp (mergeEntry_mergeEntry existing entry)

theorem panics_again (hnamed : entry.supernodeId ≠ "")
    (hpanics : ¬ (Loggable entry.supernodeId ∧ Loggable entry.roomId))
    (hnothing : ¬ NothingToStore m entry) : m.mergeInMemory entry =
      .panicked { m with deletedIds := m.deletedIds.erase entry.key } := by
  have hstore := store_cases m (m.merged entry)
  rw [supernodeId_merged, roomId_merged, key_merged] at hstore
  rcases mergeInMemory_cases m entry with ⟨hempty, -⟩ | ⟨-, h, -⟩ | ⟨-, -, heq⟩
  · exact absurd hempty hnamed
  · exact absurd h hnothing
  · rcases hstore with ⟨hlogs, -⟩ | ⟨-, hstore⟩
    · exact absurd hlogs hpanics
    · rw [heq, hstore]

theorem mergesOnce_iff (m : Rooms) (entry : RoomEntry) : MergesOnce m entry ↔
    entry.supernodeId = "" ∨ Known m entry ∨
      (Loggable entry.supernodeId ∧ Loggable entry.roomId) := by
  rcases mergeInMemory_cases m entry with ⟨hempty, heq⟩ | ⟨hnamed, hnothing, heq⟩ |
    ⟨hnamed, -, heq⟩
  · refine iff_of_true (.inr ?_) (.inl hempty)
    rw [heq]
    exact heq
  · refine iff_of_true (.inl ?_) (.inr (.inl hnothing.1))
    rw [heq]
    exact heq
  · have hstore := store_cases m (m.merged entry)
    rw [supernodeId_merged, roomId_merged, key_merged] at hstore
    rw [MergesOnce, heq]
    rcases hstore with ⟨hlogs, hstore⟩ | ⟨hpanics, hstore⟩
    · rw [hstore]
      refine iff_of_true (.inl (kept_of_nothing hnamed ⟨known_of_stored m entry _, ?_⟩))
        (.inr (.inr hlogs))
      exact not_hidden_erase m entry _
    · rw [hstore]
      have hrooms : Known { m with deletedIds := m.deletedIds.erase entry.key } entry ↔
          Known m entry := Iff.rfl
      by_cases hknown : Known m entry
      · exact iff_of_true (.inl (kept_of_nothing hnamed
          ⟨hrooms.mpr hknown, not_hidden_erase m entry m.rooms⟩)) (.inr (.inl hknown))
      · refine iff_of_false ?_ (not_or.mpr ⟨hnamed, not_or.mpr ⟨hknown, hpanics⟩⟩)
        -- nothing was stored, so that the second merge comes to the same log line
        rw [Change.memory, panics_again hnamed hpanics fun hnothing => hknown (hrooms.mp hnothing.1)]
        exact not_or.mpr ⟨nofun, nofun⟩

end Merge

/-! ## Many merges -/

end Rooms

/-- The operation comes to its end. -/
def Change.Returns : Change → Prop
  | .panicked _ => False
  | _ => True

namespace Rooms

/-- Memory after one entry of a list that a supernode sent. -/
def afterRemote (m : Rooms) (entry : RoomEntry) : Rooms :=
  (m.upsertFromRemote entry).memory

/-- One entry after another, as long as they return. -/
def upsertNext (c : Change) (entry : RoomEntry) : Change :=
  match c with
  | .panicked m => .panicked m
  | c => c.memory.upsertFromRemote entry

def upsertEach (m : Rooms) (entries : List RoomEntry) : Change :=
  entries.foldl upsertNext (.kept m)

section Many

variable {m : Rooms} {entry old : RoomEntry} {entries : List RoomEntry} {k : String} {c c' : Change}

/-- Two changes leave the same memory, and both return or neither does. -/
def SameEnd (c c' : Change) : Prop :=
  c.memory = c'.memory ∧ (c.Returns ↔ c'.Returns)

theorem upsertNext_of_returns (h : c.Returns) : upsertNext c entry = c.memory.upsertFromRemote entry := by
  cases c with
  | panicked m => exact absurd h id
  | _ => rfl

theorem sameEnd_mergeNext (h : c.Returns) (entry : RoomEntry) :
    SameEnd (mergeNext c entry) (c.memory.upsertFromRemote entry) := by
  unfold mergeNext upsertFromRemote
  split
  · exact absurd h id
  · split
    · exact ⟨rfl, iff_of_true h trivial⟩
    · rcases mergeInMemory_cases c.memory entry with ⟨-, heq⟩ | ⟨-, -, heq⟩ | ⟨-, -, heq⟩
      · rw [upsert, heq]
        exact ⟨rfl, iff_of_true h trivial⟩
      · rw [upsert, heq]
        exact ⟨rfl, iff_of_true h trivial⟩
      · rw [upsert, heq]
        rcases store_cases c.memory (c.memory.merged entry) with ⟨-, hstore⟩ | ⟨-, hstore⟩
        · rw [hstore]
          exact ⟨rfl, Iff.rfl⟩
        · rw [hstore]
          exact ⟨rfl, Iff.rfl⟩

theorem sameEnd_foldl (h : SameEnd c c') (entries : List RoomEntry) :
    SameEnd (entries.foldl mergeNext c) (entries.foldl upsertNext c') := by
  induction entries generalizing c c' with
  | nil => exact h
  | cons entry rest ih =>
    refine ih ?_
    by_cases hreturns : c.Returns
    · have hnext := sameEnd_mergeNext hreturns entry
      rw [upsertNext_of_returns (h.2.mp hreturns), ← h.1]
      exact hnext
    · cases c with
      | panicked m =>
        cases c' with
        | panicked m' => exact h
        | _ => exact absurd (h.2.mpr trivial) hreturns
      | _ => exact absurd trivial hreturns

theorem returns_of_foldl (h : (entries.foldl upsertNext c).Returns) : c.Returns := by
  induction entries generalizing c with
  | nil => exact h
  | cons entry rest ih =>
    have hnext := ih h
    cases c with
    | panicked m => exact hnext
    | _ => trivial

theorem returns_foldl (h : c.Returns) (entries : List RoomEntry) :
    (entries.foldl upsertNext c).Returns ↔
      Along afterRemote (fun m e => (m.upsertFromRemote e).Returns) c.memory entries := by
  induction entries generalizing c with
  | nil => exact iff_of_true h trivial
  | cons entry rest ih =>
    rw [List.foldl_cons, Along, upsertNext_of_returns h]
    cases hnext : c.memory.upsertFromRemote entry with
    | panicked m' =>
      refine iff_of_false (fun hrest => ?_) fun hand => hand.1
      exact returns_of_foldl hrest
    | refused m' =>
      rw [ih (c := .refused m') trivial, afterRemote, hnext]
      exact (and_iff_right trivial).symm
    | kept m' =>
      rw [ih (c := .kept m') trivial, afterRemote, hnext]
      exact (and_iff_right trivial).symm
    | changed m' =>
      rw [ih (c := .changed m') trivial, afterRemote, hnext]
      exact (and_iff_right trivial).symm

theorem memory_foldl_inv (Inv : Rooms → Prop)
    (hstep : ∀ m e, Inv m → Inv (afterRemote m e)) (h : Inv c.memory) (entries : List RoomEntry) :
    Inv (entries.foldl upsertNext c).memory := by
  induction entries generalizing c with
  | nil => exact h
  | cons entry rest ih =>
    refine ih ?_
    cases c with
    | panicked m => exact h
    | refused m => exact hstep m entry h
    | kept m => exact hstep m entry h
    | changed m => exact hstep m entry h

/-- The type is kept, wherever an entry of a list is stored. -/
def TypeKeptNext (c : Change) (entry : RoomEntry) : Prop :=
  c.Returns → c.memory.skippedFromRemote entry = true ∨ entry.supernodeId = "" ∨
    ¬ (Loggable entry.supernodeId ∧ Loggable entry.roomId) ∨ TypeKept c.memory entry

/-- What is expected of merging an entry, and of a list. -/
structure MergeLaw (m : Rooms) (entry : RoomEntry) (entries : List RoomEntry) : Prop where
  unspoiled : KeepsRows m (m.mergeInMemory entry).memory
  once : MergesOnce m entry
  /-- A list leaves what its entries leave one by one. -/
  each : (m.upsertManyFromRemote entries).memory = (m.upsertEach entries).memory
  /-- No entry of the list spoils a room in its turn. -/
  eachKept : Along upsertNext (fun c e => KeepsRows c.memory (upsertNext c e).memory) (.kept m)
    entries
  kept : KeepsRows m (m.upsertManyFromRemote entries).memory
  hidden : ∀ k ∈ m.deletedIds, k ∈ (m.upsertManyFromRemote entries).memory.deletedIds ∧
    (m.upsertManyFromRemote entries).memory.rooms[k]? = m.rooms[k]?

theorem keepsRows_upsertNext_iff (c : Change) (entry : RoomEntry) :
    KeepsRows c.memory (upsertNext c entry).memory ↔ TypeKeptNext c entry := by
  unfold TypeKeptNext
  by_cases hreturns : c.Returns
  · rw [upsertNext_of_returns hreturns, imp_iff_right hreturns, upsertFromRemote]
    split
    · next hskipped => exact iff_of_true (.of_rooms_eq rfl) (.inl hskipped)
    · next hshown => rw [upsert, keepsRows_mergeInMemory_iff, or_iff_right hshown]
  · refine iff_of_true (.of_rooms_eq ?_) fun h => absurd h hreturns
    cases c with
    | panicked m => rfl
    | _ => exact absurd trivial hreturns

theorem keepsRows_foldl (h : Along upsertNext
    (fun c e => KeepsRows c.memory (upsertNext c e).memory) c entries) :
    KeepsRows c.memory (entries.foldl upsertNext c).memory := by
  induction entries generalizing c with
  | nil => exact .of_rooms_eq rfl
  | cons entry rest ih => exact h.1.trans (ih h.2)

theorem stays_afterRemote (m : Rooms) (entry : RoomEntry) (hold : m.rooms[k]? = some old) :
    ∃ new, (afterRemote m entry).rooms[k]? = some new := by
  rw [afterRemote, upsertFromRemote]
  split
  · exact ⟨old, hold⟩
  · by_cases hk : entry.key = k
    · rw [upsert]
      rcases mergeInMemory_cases m entry with ⟨-, heq⟩ | ⟨-, -, heq⟩ | ⟨-, -, heq⟩
      · exact ⟨old, heq ▸ hold⟩
      · exact ⟨old, heq ▸ hold⟩
      · rw [heq]
        rcases store_cases m (m.merged entry) with ⟨-, hstore⟩ | ⟨-, hstore⟩
        · rw [hstore, Change.memory, key_merged, hk]
          exact ⟨_, ExtTreeMap.getElem?_insert_self⟩
        · exact ⟨old, hstore ▸ hold⟩
    · exact ⟨old, (mergeInMemory_of_ne m entry hk).1.trans hold⟩

theorem hidden_afterRemote (m : Rooms) (entry : RoomEntry) (hk : k ∈ m.deletedIds) :
    k ∈ (afterRemote m entry).deletedIds ∧ (afterRemote m entry).rooms[k]? = m.rooms[k]? := by
  rw [afterRemote, upsertFromRemote]
  split
  · exact ⟨hk, rfl⟩
  · next hshown =>
    rw [skippedFromRemote, Bool.and_eq_true, bne_iff_ne, not_and] at hshown
    by_cases hempty : entry.supernodeId = ""
    · rw [upsert, mergeInMemory, if_pos hempty]
      exact ⟨hk, rfl⟩
    · have hne : entry.key ≠ k := by
        rintro rfl
        exact hshown hempty (ExtTreeSet.mem_iff_contains.mp hk)
      obtain ⟨hrooms, hids⟩ := mergeInMemory_of_ne m entry hne
      exact ⟨hids.mpr hk, hrooms⟩

/-- The law holds exactly of an entry that is refused or known, or whose ids can be
logged and whose type is kept; and of a list that keeps types where it stores. -/
theorem mergeLaw_iff (m : Rooms) (entry : RoomEntry) (entries : List RoomEntry) :
    MergeLaw m entry entries ↔ (entry.supernodeId = "" ∨ Known m entry ∨
      ((Loggable entry.supernodeId ∧ Loggable entry.roomId) ∧ TypeKept m entry)) ∧
        Along upsertNext TypeKeptNext (.kept m) entries := by
  have heach : (m.upsertManyFromRemote entries).memory = (m.upsertEach entries).memory :=
    (sameEnd_foldl ⟨rfl, Iff.rfl⟩ entries).1
  have halong : Along upsertNext (fun c e => KeepsRows c.memory (upsertNext c e).memory) (.kept m)
      entries ↔ Along upsertNext TypeKeptNext (.kept m) entries :=
    along_congr_inv (fun _ => True) trivial (fun _ _ _ => trivial)
      fun c e _ => keepsRows_upsertNext_iff c e
  have hone : (entry.supernodeId = "" ∨ Known m entry ∨
        ((Loggable entry.supernodeId ∧ Loggable entry.roomId) ∧ TypeKept m entry)) ↔
      MergesOnce m entry ∧ KeepsRows m (m.mergeInMemory entry).memory := by
    have hknown : Known m entry → TypeKept m entry := typeKept_of_known
    rw [mergesOnce_iff, keepsRows_mergeInMemory_iff]
    tauto
  rw [hone, ← halong]
  refine ⟨fun h => ⟨⟨h.once, h.unspoiled⟩, h.eachKept⟩, fun ⟨⟨honce, hrows⟩, hlist⟩ =>
    ⟨hrows, honce, heach, hlist, ?_, fun k hk => ?_⟩⟩
  · rw [heach]
    exact keepsRows_foldl hlist
  · rw [heach]
    refine memory_foldl_inv (c := .kept m) (fun m' => k ∈ m'.deletedIds ∧ m'.rooms[k]? = m.rooms[k]?)
      (fun m' e ⟨hhidden, hrooms⟩ => ?_) ⟨hk, rfl⟩ entries
    obtain ⟨hstill, hsame⟩ := hidden_afterRemote m' e hhidden
    exact ⟨hstill, hsame.trans hrooms⟩

/-- The twelfth byte of the id is inside a character. -/
def accented : RoomEntry :=
  { RoomStore.lobby with roomId := "aéééééé" }

theorem not_loggable_accented : ¬ Loggable accented.roomId := by
  rw [Loggable, ← isSome_sliceTo?_iff]
  decide +kernel

/-- A room that cannot be logged is not stored, and the second merge panics like the first. -/
theorem accented_merges_never : ¬ MergeLaw .empty accented [] := by
  intro h
  rcases (mergesOnce_iff _ _).mp h.once with hempty | ⟨existing, hstored, -⟩ | ⟨-, hloggable⟩
  · exact absurd hempty (by decide)
  · simp [empty] at hstored
  · exact not_loggable_accented hloggable

end Many

/-! ## Operations that return -/

/-- A merge returns: it is refused, has nothing to store, or can be logged. -/
def MergeLogs (m : Rooms) (entry : RoomEntry) : Prop :=
  entry.supernodeId = "" ∨ NothingToStore m entry ∨
    (Loggable entry.supernodeId ∧ Loggable entry.roomId)

/-- An entry of a list returns: the room is hidden, or the merge returns. -/
def RemoteLogs (m : Rooms) (entry : RoomEntry) : Prop :=
  m.skippedFromRemote entry = true ∨ MergeLogs m entry

/-- The ids of the operation can be logged, where it comes to a log line. -/
def OpLogs (m : Rooms) : RoomStoreOp → Prop
  | .add entry => entry.supernodeId = "" ∨ (Loggable entry.supernodeId ∧ Loggable entry.roomId)
  | .upsert entry => MergeLogs m entry
  | .upsertFromRemote entry => RemoteLogs m entry
  | .upsertManyFromRemote entries => Along afterRemote RemoteLogs m entries
  | .remove supernodeId roomId => Loggable supernodeId ∧ Loggable roomId
  | .hideFromSidebar supernodeId roomId => Loggable supernodeId ∧ Loggable roomId
  | .unhideFromSidebar supernodeId roomId =>
    m.isHiddenFromSidebar supernodeId roomId = true → Loggable supernodeId ∧ Loggable roomId
  | _ => True

/-- The rooms of the operation are stored. -/
def Stored (m m' : Rooms) : RoomStoreOp → Prop
  | .add entry => entry.supernodeId ≠ "" → m'.rooms[entry.key]? = some entry
  | .upsert entry => entry.supernodeId ≠ "" → m'.rooms[entry.key]? = some (m.merged entry)
  | .upsertFromRemote entry => entry.supernodeId ≠ "" →
    m.isHiddenFromSidebar entry.supernodeId entry.roomId = false →
      m'.rooms[entry.key]? = some (m.merged entry)
  | .upsertManyFromRemote entries => ∀ entry ∈ entries, entry.supernodeId ≠ "" →
    m.isHiddenFromSidebar entry.supernodeId entry.roomId = false → ∃ e, m'.rooms[entry.key]? = some e
  | _ => True

section Returns

variable {m : Rooms} {entry : RoomEntry}

theorem returns_store (m : Rooms) (entry : RoomEntry) :
    (m.store entry).Returns ↔ Loggable entry.supernodeId ∧ Loggable entry.roomId := by
  rcases store_cases m entry with ⟨hlogs, heq⟩ | ⟨hpanics, heq⟩
  · rw [heq]
    exact iff_of_true trivial hlogs
  · rw [heq]
    exact iff_of_false id hpanics

theorem returns_afterLog (m : Rooms) (supernodeId roomId : String) :
    (m.afterLog supernodeId roomId).Returns ↔ Loggable supernodeId ∧ Loggable roomId := by
  rw [afterLog, ← isSome_logged?_iff]
  split
  · next hlogged => exact iff_of_true trivial hlogged
  · next hpanics => exact iff_of_false id hpanics

theorem returns_mergeInMemory (m : Rooms) (entry : RoomEntry) :
    (m.mergeInMemory entry).Returns ↔ MergeLogs m entry := by
  rcases mergeInMemory_cases m entry with ⟨hempty, heq⟩ | ⟨-, hnothing, heq⟩ |
    ⟨hnamed, hnothing, heq⟩
  · rw [heq]
    exact iff_of_true trivial (.inl hempty)
  · rw [heq]
    exact iff_of_true trivial (.inr (.inl hnothing))
  · rw [heq, returns_store, supernodeId_merged, roomId_merged, MergeLogs]
    simp only [hnamed, hnothing, false_or]

theorem returns_upsertFromRemote (m : Rooms) (entry : RoomEntry) :
    (m.upsertFromRemote entry).Returns ↔ RemoteLogs m entry := by
  rw [upsertFromRemote, RemoteLogs]
  split
  · next hskipped => exact iff_of_true trivial (.inl hskipped)
  · next hshown =>
    rw [upsert, returns_mergeInMemory]
    exact (or_iff_right hshown).symm

theorem returns_moveEntry {c : Change} (h : c.Returns) (resolve : String → Option String)
    (entry : RoomEntry) : (moveEntry resolve c entry).Returns := by
  unfold moveEntry
  split
  · exact h
  · split
    · exact h
    · trivial

theorem returns_moveTombstone {c : Change} (h : c.Returns) (resolve : String → Option String)
    (key : String) : (moveTombstone resolve c key).Returns := by
  unfold moveTombstone
  dsimp only
  split
  · split
    · exact h
    · split
      · exact h
      · trivial
  · exact h

theorem returns_foldl_of {α : Type} {f : Change → α → Change}
    (hf : ∀ c a, c.Returns → (f c a).Returns) {c : Change} (h : c.Returns) (l : List α) :
    (l.foldl f c).Returns := by
  induction l generalizing c with
  | nil => exact h
  | cons a l ih => exact ih (hf c a h)

theorem stored_mergeInMemory (hnamed : entry.supernodeId ≠ "")
    (h : (m.mergeInMemory entry).Returns) :
    (m.mergeInMemory entry).memory.rooms[entry.key]? = some (m.merged entry) := by
  rcases mergeInMemory_cases m entry with ⟨hempty, -⟩ | ⟨-, hnothing, heq⟩ | ⟨-, -, heq⟩
  · exact absurd hempty hnamed
  · rw [heq]
    exact known_iff.mp hnothing.1
  · rw [heq] at h ⊢
    rcases store_cases m (m.merged entry) with ⟨-, hstore⟩ | ⟨hpanics, -⟩
    · rw [hstore, Change.memory, key_merged]
      exact ExtTreeMap.getElem?_insert_self
    · exact absurd ((returns_store _ _).mp h) hpanics

theorem stored_upsertFromRemote (hnamed : entry.supernodeId ≠ "")
    (hshown : m.isHiddenFromSidebar entry.supernodeId entry.roomId = false)
    (h : (m.upsertFromRemote entry).Returns) :
    (m.upsertFromRemote entry).memory.rooms[entry.key]? = some (m.merged entry) := by
  have hskipped : m.skippedFromRemote entry = false := by
    rw [skippedFromRemote, hshown, Bool.and_false]
  rw [upsertFromRemote, hskipped] at h ⊢
  exact stored_mergeInMemory hnamed h

theorem hidden_of_afterRemote {sn id : String} (entry : RoomEntry)
    (h : m.isHiddenFromSidebar sn id = false) :
    (afterRemote m entry).isHiddenFromSidebar sn id = false := by
  rw [afterRemote, upsertFromRemote]
  split
  · exact h
  · rw [upsert]
    rcases mergeInMemory_cases m entry with ⟨-, heq⟩ | ⟨-, -, heq⟩ | ⟨-, -, heq⟩
    · rwa [heq]
    · rwa [heq]
    · have herase : (m.deletedIds.erase (m.merged entry).key).contains (entryKey sn id) = false := by
        rw [ExtTreeSet.contains_erase, Bool.and_eq_false_iff]
        exact .inr h
      rw [heq]
      rcases store_cases m (m.merged entry) with ⟨-, hstore⟩ | ⟨-, hstore⟩
      · rw [hstore]
        exact herase
      · rw [hstore]
        exact herase

theorem stored_foldl {entries : List RoomEntry} {c : Change}
    (h : (entries.foldl upsertNext c).Returns) (hentry : entry ∈ entries)
    (hnamed : entry.supernodeId ≠ "")
    (hshown : c.memory.isHiddenFromSidebar entry.supernodeId entry.roomId = false) :
    ∃ e, (entries.foldl upsertNext c).memory.rooms[entry.key]? = some e := by
  induction entries generalizing c with
  | nil => cases hentry
  | cons a rest ih =>
    have hnext : (upsertNext c a).Returns := returns_of_foldl h
    have hreturns : c.Returns := by
      cases c with
      | panicked m => exact hnext
      | _ => trivial
    have heq : upsertNext c a = c.memory.upsertFromRemote a := upsertNext_of_returns hreturns
    rcases List.mem_cons.mp hentry with rfl | hin
    · have hstored := stored_upsertFromRemote hnamed hshown (heq ▸ hnext)
      refine memory_foldl_inv (fun m' => ∃ e, m'.rooms[entry.key]? = some e)
        (fun m' b ⟨e, he⟩ => ?_) ⟨_, heq ▸ hstored⟩ rest
      exact stays_afterRemote m' b he
    · refine ih h hin ?_
      rw [heq]
      exact hidden_of_afterRemote a hshown

theorem returns_upsertMany (m : Rooms) (entries : List RoomEntry) :
    (m.upsertManyFromRemote entries).Returns ↔ Along afterRemote RemoteLogs m entries := by
  have hend : SameEnd (m.upsertManyFromRemote entries) (m.upsertEach entries) :=
    sameEnd_foldl ⟨rfl, Iff.rfl⟩ entries
  rw [hend.2]
  refine (returns_foldl (c := .kept m) trivial entries).trans ?_
  exact along_congr_inv (fun _ => True) trivial (fun _ _ _ => trivial)
    fun m' e _ => returns_upsertFromRemote m' e

theorem returns_apply (P : Platform) (m : Rooms) (op : RoomStoreOp) :
    (op.apply P m).Returns ↔ OpLogs m op := by
  cases op with
  | add entry =>
    rw [RoomStoreOp.apply, add, OpLogs]
    split
    · next hempty => exact iff_of_true trivial (.inl hempty)
    · next hnamed => rw [returns_store, or_iff_right hnamed]
  | upsert entry => exact returns_mergeInMemory m entry
  | upsertFromRemote entry => exact returns_upsertFromRemote m entry
  | upsertManyFromRemote entries => exact returns_upsertMany m entries
  | remove supernodeId roomId => exact returns_afterLog _ _ _
  | hideFromSidebar supernodeId roomId => exact returns_afterLog _ _ _
  | unhideFromSidebar supernodeId roomId =>
    rw [RoomStoreOp.apply, unhideFromSidebar, OpLogs, isHiddenFromSidebar]
    split
    · next hhidden => rw [returns_afterLog, imp_iff_right hhidden]
    · next hshown => exact iff_of_true trivial fun hhidden => absurd hhidden hshown
  | setSpaceLinkage supernodeId roomId parentId spaceId =>
    rw [RoomStoreOp.apply, setSpaceLinkage]
    split
    · exact iff_of_true trivial trivial
    · split
      · exact iff_of_true trivial trivial
      · exact iff_of_true trivial trivial
  | adoptRoomIntoSpace ownerPub supernodeId roomId roomName roomType parentNodeId =>
    exact iff_of_true trivial trivial
  | normalizeSupernodeIds peerStore order v =>
    have hmoved := returns_foldl_of
      (fun c e hc => returns_moveEntry hc (peerStore.resolveSupernodeIdentityPub order) e)
      (c := .kept m) trivial (v.order (values m.rooms))
    exact iff_of_true (returns_foldl_of (fun c key hc => returns_moveTombstone hc _ key) hmoved _)
      trivial

theorem stored_apply (P : Platform) {m : Rooms} {op : RoomStoreOp} (h : (op.apply P m).Returns) :
    Stored m (op.apply P m).memory op := by
  cases op with
  | add entry =>
    intro hnamed
    rw [RoomStoreOp.apply, add, if_neg hnamed] at h ⊢
    rcases store_cases m entry with ⟨-, hstore⟩ | ⟨hpanics, -⟩
    · rw [hstore]
      exact ExtTreeMap.getElem?_insert_self
    · exact absurd ((returns_store _ _).mp h) hpanics
  | upsert entry => exact fun hnamed => stored_mergeInMemory hnamed h
  | upsertFromRemote entry => exact fun hnamed hshown => stored_upsertFromRemote hnamed hshown h
  | upsertManyFromRemote entries =>
    intro entry hentry hnamed hshown
    have hend : SameEnd (m.upsertManyFromRemote entries) (m.upsertEach entries) :=
      sameEnd_foldl ⟨rfl, Iff.rfl⟩ entries
    rw [RoomStoreOp.apply] at h ⊢
    rw [hend.1]
    exact stored_foldl (c := .kept m) (hend.2.mp h) hentry hnamed hshown
  | _ => trivial

theorem isSome_ofData (data : StoreData) : (ofData data).isSome = true ↔
    ∀ e ∈ data.rooms, e.supernodeId = "" → Loggable e.roomId := by
  have hloads : ∀ (l : List RoomEntry) (rooms : ExtTreeMap String RoomEntry),
      (l.foldlM loadEntry rooms).isSome = true ↔
        ∀ e ∈ l, e.supernodeId = "" → Loggable e.roomId := by
    intro l
    induction l with
    | nil => exact fun _ => iff_of_true rfl nofun
    | cons e l ih =>
      intro rooms
      rw [List.foldlM_cons, List.forall_mem_cons, loadEntry]
      split
      · next hempty =>
        rw [imp_iff_right hempty, Loggable, ← isSome_sliceTo?_iff, ← sliceUpTo?]
        cases sliceUpTo? e.roomId 12 with
        | none => simp
        | some logged =>
          rw [and_iff_right Option.isSome_some]
          exact ih rooms
      · next hnamed =>
        rw [and_iff_right fun hempty => absurd hempty hnamed]
        exact ih _
  rw [ofData, ← hloads data.rooms ∅]
  cases data.rooms.foldlM loadEntry ∅ with
  | none => rfl
  | some rooms => rfl

/-- An operation comes to its end, with its rooms stored, exactly when the ids it comes to
log can be logged; and a file is loaded when those of its malformed entries can. -/
theorem stores_iff (P : Platform) (m : Rooms) (op : RoomStoreOp) (data : StoreData) :
    ((op.apply P m).Returns ∧ Stored m (op.apply P m).memory op ↔ OpLogs m op) ∧
      ((ofData data).isSome = true ↔ ∀ e ∈ data.rooms, e.supernodeId = "" → Loggable e.roomId) := by
  refine ⟨?_, isSome_ofData data⟩
  rw [← returns_apply P]
  exact ⟨fun h => h.1, fun h => ⟨h, stored_apply P h⟩⟩

/-- A supernode lists a room whose twelfth byte is inside a letter. -/
theorem accented_panics :
    ¬ ((RoomStoreOp.upsertManyFromRemote [accented]).apply Platform.symbolic .empty).Returns := by
  rw [returns_apply]
  rintro ⟨hskipped | hempty | ⟨⟨existing, hstored, -⟩, -⟩ | ⟨-, hloggable⟩, -⟩
  · simp [skippedFromRemote, isHiddenFromSidebar, empty] at hskipped
  · exact absurd hempty (by decide)
  · simp [empty] at hstored
  · exact not_loggable_accented hloggable

end Returns

end Rooms

end ConquerD.Client
