import SolarDrive.Metadata.Inversion

/-!
# A purge that fails

`purge_content` with everything that can fail in it: the statements, the query
and the `unlink` of each chunk, the commit. The tables are put back when the
transaction does not commit. The object files are not.
-/

namespace SolarDrive.Metadata

open Lib Api

/-! ## The purge -/

/-- What fails at one chunk. `ENOENT` is not a failure of `unlink`. -/
structure ChunkFault where
  query : Option Exn := none
  unlink : Option Exn := none

structure PurgeFaults where
  refcount : Option Exn := none
  /-- The three `DELETE` statements. -/
  deletes : Option Exn := none
  chunk : Nat → ChunkFault := fun _ => {}
  commit : Option Exn := none

/-- `ObjectStore::remove`; `text` is the name of the file. -/
def storeRemove (unlink : Option Exn) (hash text : Bytes) (store : Bytes → Option Bytes) :
    Except Exn Bool × (Bytes → Option Bytes) :=
  if hash = [] then (.ok false, store)
  else if text.length < 4 then (.error (hashTooShort hash), store)
  else
    match unlink with
    | some e => (.error e, store)
    | none =>
        if (store text).isSome then (.ok true, Function.update store text none)
        else (.ok false, store)

/-- The loop over the chunks; `faults 0` is for the first of them. -/
def sweep (pg : Postgres) (contents : List ContentRow) :
    List Bytes → (Nat → ChunkFault) → (Bytes → Option Bytes) → Nat →
      Except Exn Nat × (Bytes → Option Bytes)
  | [], _, store, removed => (.ok removed, store)
  | hash :: hashes, faults, store, removed =>
      match (faults 0).query, pg.textParam hash with
      | some e, _ => (.error e, store)
      | none, .error e => (.error e, store)
      | none, .ok text =>
          if chunkHashInUse contents text then
            sweep pg contents hashes (fun n => faults (n + 1)) store removed
          else
            match storeRemove (faults 0).unlink hash text store with
            | (.error e, store) => (.error e, store)
            | (.ok b, store) =>
                sweep pg contents hashes (fun n => faults (n + 1)) store
                  (if b then removed + 1 else removed)

/-- How a purge ends. -/
structure PurgeEnd where
  result : Except Exn GcStats
  committed : Bool
  world : World

/-- `purge_content`. Without the commit the destructor of the transaction puts the tables back. -/
def purgeContentUnder (svc : Services) (pg : Postgres) (faults : PurgeFaults)
    (content : ContentRecord) (w : World) : PurgeEnd :=
  match faults.refcount, pg.uuidParam content.id with
  | some e, _ => ⟨.error e, false, w⟩
  | none, .error e => ⟨.error e, false, w⟩
  | none, .ok id =>
      if w.fileLives id then ⟨.ok {}, false, w⟩
      else
        match parseChunkHashes svc.json content.chunkHashes with
        | none => ⟨.ok {}, false, w⟩
        | some hashes =>
            match faults.deletes with
            | some e => ⟨.error e, false, w⟩
            | none =>
                if (w.findContent id).isNone then ⟨.ok {}, false, w⟩
                else
                  let txn := withoutContent id w
                  match sweep pg txn.contents hashes faults.chunk w.store 0, faults.commit with
                  | (.error e, store), _ => ⟨.error e, false, { w with store }⟩
                  | (.ok _, store), some e => ⟨.error e, false, { w with store }⟩
                  | (.ok removed, store), none =>
                      ⟨.ok { contentRowsDeleted := 1, chunkFilesRemoved := removed }, true,
                        { txn with store }⟩

/-! ## When nothing fails -/

section Faultless

variable {pg : Postgres} {contents : List ContentRow}

theorem sweep_faultless : ∀ (hashes : List Bytes) (store : Bytes → Option Bytes) (n : Nat),
    sweep pg contents hashes (fun _ => {}) store n = removeChunks pg contents hashes store n
  | [], _, _ => rfl
  | hash :: hashes, store, n => by
      rw [sweep, removeChunks]
      cases pg.textParam hash with
      | error e => rfl
      | ok text =>
          dsimp only
          by_cases huse : chunkHashInUse contents text = true
          · rw [if_pos huse, if_pos (Or.inl huse)]
            exact sweep_faultless hashes store n
          · rw [if_neg huse]
            unfold storeRemove
            by_cases hempty : hash = []
            · rw [if_pos hempty, if_pos (Or.inr hempty)]
              exact sweep_faultless hashes store n
            · rw [if_neg hempty, if_neg (not_or.mpr ⟨huse, hempty⟩)]
              by_cases hlen : text.length < 4
              · rw [if_pos hlen, if_pos hlen]
              · rw [if_neg hlen, if_neg hlen]
                dsimp only
                by_cases hsome : (store text).isSome = true
                · rw [if_pos hsome, if_pos hsome]
                  exact sweep_faultless hashes _ _
                · rw [if_neg hsome, if_neg hsome]
                  exact sweep_faultless hashes _ _

/-- The purge of the other modules is this one when nothing fails. -/
theorem purgeContentUnder_faultless (svc : Services) (content : ContentRecord) (w : World) :
    ((purgeContentUnder svc pg {} content w).result, (purgeContentUnder svc pg {} content w).world) =
      purgeContent svc pg content w := by
  unfold purgeContentUnder purgeContent
  dsimp only
  cases pg.uuidParam content.id with
  | error e => rfl
  | ok id =>
      dsimp only
      split
      · rfl
      · cases parseChunkHashes svc.json content.chunkHashes with
        | none => rfl
        | some hashes =>
            dsimp only
            split
            · rfl
            · rw [sweep_faultless]
              rcases removeChunks pg (withoutContent id w).contents hashes w.store 0 with ⟨r, store⟩
              cases r <;> rfl

/-- A sweep that goes through has met no failure. -/
theorem sweep_through : ∀ {hashes : List Bytes} {faults : Nat → ChunkFault}
    {store store' : Bytes → Option Bytes} {n m : Nat},
    sweep pg contents hashes faults store n = (.ok m, store') →
      removeChunks pg contents hashes store n = (.ok m, store')
  | [], _, _, _, _, _, h => h
  | hash :: hashes, faults, store, store', n, m, h => by
      rw [← sweep_faultless]
      rw [sweep] at h ⊢
      cases hquery : (faults 0).query with
      | some e =>
          rw [hquery] at h
          cases h
      | none =>
          rw [hquery] at h
          cases htext : pg.textParam hash with
          | error e =>
              rw [htext] at h
              cases h
          | ok text =>
              rw [htext] at h
              dsimp only at h ⊢
              by_cases huse : chunkHashInUse contents text = true
              · rw [if_pos huse] at h ⊢
                exact (sweep_faultless hashes _ _).trans (sweep_through h)
              · rw [if_neg huse] at h ⊢
                have hremove : ∀ {b store₁},
                    storeRemove (faults 0).unlink hash text store = (.ok b, store₁) →
                    storeRemove none hash text store = (.ok b, store₁) := by
                  intro b store₁ hb
                  unfold storeRemove at hb ⊢
                  cases hunlink : (faults 0).unlink with
                  | none => rwa [hunlink] at hb
                  | some e =>
                      rw [hunlink] at hb
                      by_cases hempty : hash = []
                      · rwa [if_pos hempty] at hb ⊢
                      · rw [if_neg hempty] at hb
                        by_cases hshort : text.length < 4
                        · rw [if_pos hshort] at hb
                          cases hb
                        · rw [if_neg hshort] at hb
                          cases hb
                rcases hres : storeRemove (faults 0).unlink hash text store with ⟨r, store₁⟩
                rw [hres] at h
                cases r with
                | error e => cases h
                | ok b =>
                    rw [hremove hres]
                    exact (sweep_faultless hashes _ _).trans (sweep_through h)

/-- A purge that commits is one in which nothing failed. -/
theorem purgeContentUnder_committed {svc : Services} {faults : PurgeFaults}
    {content : ContentRecord} {w : World}
    (h : (purgeContentUnder svc pg faults content w).committed = true) :
    ((purgeContentUnder svc pg faults content w).result,
      (purgeContentUnder svc pg faults content w).world) = purgeContent svc pg content w := by
  unfold purgeContentUnder at h ⊢
  unfold purgeContent
  cases hcount : faults.refcount with
  | some e =>
      rw [hcount] at h
      cases h
  | none =>
  rw [hcount] at h
  cases hid : pg.uuidParam content.id with
  | error e => rfl
  | ok id =>
  rw [hid] at h
  dsimp only at h ⊢
  by_cases hlive : w.fileLives id = true
  · rw [if_pos hlive] at h
    cases h
  rw [if_neg hlive] at h ⊢
  rw [if_neg hlive]
  cases hparse : parseChunkHashes svc.json content.chunkHashes with
  | none => rfl
  | some hashes =>
  rw [hparse] at h
  cases hdeletes : faults.deletes with
  | some e =>
      rw [hdeletes] at h
      cases h
  | none =>
  rw [hdeletes] at h
  dsimp only at h ⊢
  by_cases hrow : (w.findContent id).isNone = true
  · rw [if_pos hrow] at h
    cases h
  rw [if_neg hrow] at h ⊢
  rw [if_neg hrow]
  rcases hsweep : sweep pg (withoutContent id w).contents hashes faults.chunk w.store 0 with
    ⟨r, store⟩
  rw [hsweep] at h
  cases r with
  | error e => cases h
  | ok m =>
      rw [sweep_through hsweep]
      cases hcommit : faults.commit with
      | none => rfl
      | some e =>
          rw [hcommit] at h
          cases h

end Faultless

/-! ## What a failed purge takes with it -/

section Failing

variable (pg : Postgres) (contents : List ContentRow)

/-- The purge does not get past this chunk. -/
def ChunkFails (fault : ChunkFault) (hash : Bytes) : Prop :=
  fault.query ≠ none ∨ ∀ text, pg.textParam hash = .ok text →
    chunkHashInUse contents text = false ∧ hash ≠ [] ∧ (text.length < 4 ∨ fault.unlink ≠ none)

/-- The object of the chunk is there, and no remaining content lists it. -/
def Removable (store : Bytes → Option Bytes) (hash : Bytes) : Prop :=
  ∃ text, pg.textParam hash = .ok text ∧ chunkHashInUse contents text = false ∧ hash ≠ [] ∧
    (store text).isSome = true

variable {pg contents}

/-- One turn of the loop: it fails, it takes the object of the chunk, or it goes on. -/
theorem sweep_cons (hash : Bytes) (hashes : List Bytes) (faults : Nat → ChunkFault)
    (store : Bytes → Option Bytes) (n : Nat) :
    (ChunkFails pg contents (faults 0) hash ∧
      ∃ e, sweep pg contents (hash :: hashes) faults store n = (.error e, store)) ∨
    ¬ ChunkFails pg contents (faults 0) hash ∧
      ((∃ text, (store text).isSome = true ∧
          sweep pg contents (hash :: hashes) faults store n = sweep pg contents hashes
            (fun n => faults (n + 1)) (Function.update store text none) (n + 1) ∧
          Removable pg contents store hash) ∨
        (sweep pg contents (hash :: hashes) faults store n =
            sweep pg contents hashes (fun n => faults (n + 1)) store n ∧
          ¬ Removable pg contents store hash)) := by
  rw [sweep]
  cases hquery : (faults 0).query with
  | some e => exact Or.inl ⟨Or.inl (by rw [hquery]; nofun), e, rfl⟩
  | none =>
  cases htext : pg.textParam hash with
  | error e =>
      refine Or.inl ⟨Or.inr fun text ht => ?_, e, rfl⟩
      rw [htext] at ht
      cases ht
  | ok text =>
  -- the name of the object is the one text of the hash
  have hname : ∀ {text'}, pg.textParam hash = .ok text' → text' = text := by
    intro text' ht
    rw [htext] at ht
    exact (Except.ok.inj ht).symm
  have hpasses : (chunkHashInUse contents text = true ∨ hash = [] ∨
      ¬ text.length < 4 ∧ (faults 0).unlink = none) → ¬ ChunkFails pg contents (faults 0) hash := by
    rintro hpass (hq | hall)
    · exact hq hquery
    · obtain ⟨huse, hne, hbad⟩ := hall text htext
      rcases hpass with h | h | ⟨hlen, hlink⟩
      · rw [huse] at h
        cases h
      · exact hne h
      · exact hbad.elim hlen fun h => h hlink
  have hstays : (chunkHashInUse contents text = true ∨ hash = [] ∨ (store text).isSome = false) →
      ¬ Removable pg contents store hash := by
    rintro hstay ⟨text', ht, huse, hne, hsome⟩
    obtain rfl := hname ht
    rcases hstay with h | h | h
    · rw [huse] at h
      cases h
    · exact hne h
    · rw [hsome] at h
      cases h
  dsimp only
  by_cases huse : chunkHashInUse contents text = true
  · rw [if_pos huse]
    exact Or.inr ⟨hpasses (.inl huse), .inr ⟨rfl, hstays (.inl huse)⟩⟩
  rw [if_neg huse]
  rw [Bool.not_eq_true] at huse
  unfold storeRemove
  by_cases hempty : hash = []
  · rw [if_pos hempty]
    exact Or.inr ⟨hpasses (.inr (.inl hempty)), .inr ⟨rfl, hstays (.inr (.inl hempty))⟩⟩
  rw [if_neg hempty]
  by_cases hlen : text.length < 4
  · rw [if_pos hlen]
    refine Or.inl ⟨Or.inr fun text' ht => ?_, _, rfl⟩
    rw [hname ht]
    exact ⟨huse, hempty, .inl hlen⟩
  rw [if_neg hlen]
  cases hlink : (faults 0).unlink with
  | some e =>
      refine Or.inl ⟨Or.inr fun text' ht => ?_, e, rfl⟩
      rw [hname ht]
      exact ⟨huse, hempty, .inr (by rw [hlink]; nofun)⟩
  | none =>
      refine Or.inr ⟨hpasses (.inr (.inr ⟨hlen, hlink⟩)), ?_⟩
      cases hsome : (store text).isSome with
      | true => exact .inl ⟨text, hsome, rfl, text, htext, huse, hempty, hsome⟩
      | false => exact .inr ⟨rfl, hstays (.inr (.inr hsome))⟩

/-- The sweep adds no object. -/
theorem sweep_subset : ∀ (hashes : List Bytes) (faults : Nat → ChunkFault)
    (store : Bytes → Option Bytes) (n : Nat) (x : Bytes),
    ((sweep pg contents hashes faults store n).2 x).isSome = true → (store x).isSome = true
  | [], _, _, _, _, h => h
  | hash :: hashes, faults, store, n, x, h => by
      rcases @sweep_cons pg contents hash hashes faults store n with
        ⟨-, e, heq⟩ | ⟨-, ⟨text, -, heq, -⟩ | ⟨heq, -⟩⟩
      · rwa [heq] at h
      · rw [heq] at h
        have hlater := sweep_subset hashes _ _ _ x h
        by_cases hx : x = text
        · rw [hx, Function.update_self] at hlater
          cases hlater
        · rwa [Function.update_of_ne hx] at hlater
      · rw [heq] at h
        exact sweep_subset hashes _ _ _ x h

theorem sweep_ok_iff : ∀ (hashes : List Bytes) (faults : Nat → ChunkFault)
    (store : Bytes → Option Bytes) (n : Nat),
    (∃ m, (sweep pg contents hashes faults store n).1 = .ok m) ↔
      ∀ j hash, hashes[j]? = some hash → ¬ ChunkFails pg contents (faults j) hash
  | [], _, _, n => ⟨fun _ _ _ h => (by cases h), fun _ => ⟨n, rfl⟩⟩
  | hash :: hashes, faults, store, n => by
      have hall : ∀ store' m, (∃ k, (sweep pg contents hashes (fun n => faults (n + 1)) store' m).1 =
            .ok k) → ¬ ChunkFails pg contents (faults 0) hash →
          ∀ j h, (hash :: hashes)[j]? = some h → ¬ ChunkFails pg contents (faults j) h := by
        intro store' m hok hfirst j h hj
        cases j with
        | zero =>
            cases hj
            exact hfirst
        | succ j => exact (sweep_ok_iff hashes _ store' m).mp hok j h hj
      have hrest : (∀ j h, (hash :: hashes)[j]? = some h → ¬ ChunkFails pg contents (faults j) h) →
          ∀ store' m, ∃ k, (sweep pg contents hashes (fun n => faults (n + 1)) store' m).1 = .ok k :=
        fun h store' m => (sweep_ok_iff hashes _ store' m).mpr fun j x hj => h (j + 1) x hj
      rcases sweep_cons hash hashes faults store n with
        ⟨hfails, e, hsweep⟩ | ⟨hfirst, ⟨text, -, hsweep, -⟩ | ⟨hsweep, -⟩⟩
      · rw [hsweep]
        constructor
        · rintro ⟨m, hm⟩
          cases hm
        · exact fun h => absurd hfails (h 0 hash rfl)
      · rw [hsweep]
        exact ⟨fun hok => hall _ _ hok hfirst, fun h => hrest h _ _⟩
      · rw [hsweep]
        exact ⟨fun hok => hall _ _ hok hfirst, fun h => hrest h _ _⟩

/-- The sweep never writes an object. -/
theorem sweep_gone : ∀ (hashes : List Bytes) (faults : Nat → ChunkFault)
    (store : Bytes → Option Bytes) (n : Nat) (x : Bytes), store x = none →
    (sweep pg contents hashes faults store n).2 x = none
  | [], _, _, _, _, hx => hx
  | hash :: hashes, faults, store, n, x, hx => by
      rcases sweep_cons hash hashes faults store n with
        ⟨-, e, hsweep⟩ | ⟨-, ⟨text, -, hsweep, -⟩ | ⟨hsweep, -⟩⟩
      · rw [hsweep]
        exact hx
      · rw [hsweep]
        refine sweep_gone hashes _ _ _ x ?_
        by_cases heq : x = text
        · rw [heq, Function.update_self]
        · rwa [Function.update_of_ne heq]
      · rw [hsweep]
        exact sweep_gone hashes _ _ _ x hx

/-- It keeps every object if it fails at or before each chunk that it would take. -/
theorem sweep_keeps_iff : ∀ (hashes : List Bytes) (faults : Nat → ChunkFault)
    (store : Bytes → Option Bytes) (n : Nat),
    (∀ x, (store x).isSome = true →
      ((sweep pg contents hashes faults store n).2 x).isSome = true) ↔
    ∀ j hash, hashes[j]? = some hash → Removable pg contents store hash →
      ∃ i ≤ j, ∃ hash', hashes[i]? = some hash' ∧ ChunkFails pg contents (faults i) hash'
  | [], _, _, _ => ⟨fun _ _ _ h => (by cases h), fun _ _ h => h⟩
  | hash :: hashes, faults, store, n => by
      rcases sweep_cons hash hashes faults store n with
        ⟨hfails, e, hsweep⟩ | ⟨hfirst, ⟨text, hsome, hsweep, hremovable⟩ | ⟨hsweep, hstays⟩⟩
      · rw [hsweep]
        exact ⟨fun _ j _ _ _ => ⟨0, Nat.zero_le j, hash, rfl, hfails⟩, fun _ _ h => h⟩
      · rw [hsweep]
        constructor
        · intro h
          have hgone := @sweep_gone pg contents hashes
            (fun n => faults (n + 1)) _ (n + 1) text (Function.update_self text none store)
          have hkept := h text hsome
          rw [hgone] at hkept
          cases hkept
        · intro h
          obtain ⟨i, hi, hash', hget, hfails⟩ := h 0 hash rfl hremovable
          obtain rfl := Nat.le_zero.mp hi
          cases hget
          exact absurd hfails hfirst
      · rw [hsweep, sweep_keeps_iff hashes]
        constructor
        · intro h j x hj hx
          cases j with
          | zero =>
              cases hj
              exact absurd hx hstays
          | succ j =>
              obtain ⟨i, hi, hash', hget, hfails⟩ := h j x hj hx
              exact ⟨i + 1, Nat.succ_le_succ hi, hash', hget, hfails⟩
        · intro h j x hj hx
          obtain ⟨i, hi, hash', hget, hfails⟩ := h (j + 1) x hj hx
          cases i with
          | zero =>
              cases hget
              exact absurd hfails hfirst
          | succ i => exact ⟨i, Nat.le_of_succ_le_succ hi, hash', hget, hfails⟩

end Failing

section Purge

variable (svc : Services) (pg : Postgres) (faults : PurgeFaults) (content : ContentRecord) (w : World)

/-- The purge gets to the loop, with these chunks. -/
structure Reaches (id : Uuid) (hashes : List Bytes) : Prop where
  refcount : faults.refcount = none
  idParam : pg.uuidParam content.id = .ok id
  dead : w.fileLives id = false
  parses : parseChunkHashes svc.json content.chunkHashes = some hashes
  deletes : faults.deletes = none
  row : (w.findContent id).isSome = true

/-- A purge that gets as far as to take an object has no failure at a later chunk
and none of its commit. -/
def TakesLast : Prop :=
  ∀ id hashes, Reaches svc pg faults content w id hashes → ∀ j hash, hashes[j]? = some hash →
    Removable pg (withoutContent id w).contents w.store hash →
    (∀ i ≤ j, ∀ h, hashes[i]? = some h →
      ¬ ChunkFails pg (withoutContent id w).contents (faults.chunk i) h) →
    (∀ i h, hashes[i]? = some h →
      ¬ ChunkFails pg (withoutContent id w).contents (faults.chunk i) h) ∧ faults.commit = none

variable {svc pg faults content w}

/-- It ends before the loop and has changed nothing, or it ends with the sweep or the commit. -/
theorem purgeContentUnder_cases :
    ((∀ id hashes, ¬ Reaches svc pg faults content w id hashes) ∧
      (purgeContentUnder svc pg faults content w).world = w) ∨
    ∃ id hashes, Reaches svc pg faults content w id hashes ∧
      let swept := sweep pg (withoutContent id w).contents hashes faults.chunk w.store 0
      ((∃ m, swept.1 = .ok m) ∧ faults.commit = none ∧
          (purgeContentUnder svc pg faults content w).committed = true) ∨
        ¬ ((∃ m, swept.1 = .ok m) ∧ faults.commit = none) ∧
          (purgeContentUnder svc pg faults content w).committed = false ∧
          (purgeContentUnder svc pg faults content w).world = { w with store := swept.2 } := by
  unfold purgeContentUnder
  cases hcount : faults.refcount with
  | some e => exact .inl ⟨fun _ _ h => (by cases hcount.symm.trans h.refcount), rfl⟩
  | none =>
  cases hid : pg.uuidParam content.id with
  | error e => exact .inl ⟨fun _ _ h => (by cases hid.symm.trans h.idParam), rfl⟩
  | ok id =>
  dsimp only
  cases hlive : w.fileLives id with
  | true =>
      refine .inl ⟨fun id' _ h => ?_, rfl⟩
      obtain rfl : id = id' := Except.ok.inj (hid.symm.trans h.idParam)
      cases hlive.symm.trans h.dead
  | false =>
  cases hparse : parseChunkHashes svc.json content.chunkHashes with
  | none => exact .inl ⟨fun _ _ h => (by cases hparse.symm.trans h.parses), rfl⟩
  | some hashes =>
  cases hdeletes : faults.deletes with
  | some e => exact .inl ⟨fun _ _ h => (by cases hdeletes.symm.trans h.deletes), rfl⟩
  | none =>
  dsimp only
  cases hrow : w.findContent id with
  | none =>
      refine .inl ⟨fun id' _ h => ?_, rfl⟩
      obtain rfl : id = id' := Except.ok.inj (hid.symm.trans h.idParam)
      cases (congrArg Option.isSome hrow).symm.trans h.row
  | some row =>
      have hreaches : Reaches svc pg faults content w id hashes :=
        ⟨hcount, hid, hlive, hparse, hdeletes, by rw [hrow]; rfl⟩
      refine .inr ⟨id, hashes, hreaches, ?_⟩
      dsimp only [Option.isNone_some, Bool.false_eq_true, if_false]
      rcases sweep pg (withoutContent id w).contents hashes faults.chunk w.store 0 with ⟨r, store⟩
      cases r with
      | error e => exact .inr ⟨fun h => (by obtain ⟨⟨m, hm⟩, -⟩ := h; cases hm), rfl, rfl⟩
      | ok m =>
          cases hcommit : faults.commit with
          | none => exact .inl ⟨⟨m, rfl⟩, rfl, rfl⟩
          | some e => exact .inr ⟨fun h => (by cases h.2), rfl, rfl⟩

/-- A purge that fails adds no object. -/
theorem purgeContentUnder_subset
    (hfails : (purgeContentUnder svc pg faults content w).committed = false) (x : Bytes)
    (h : ((purgeContentUnder svc pg faults content w).world.store x).isSome = true) :
    (w.store x).isSome = true := by
  rcases @purgeContentUnder_cases svc pg faults content w with
    ⟨-, hworld⟩ | ⟨id, hashes, -, ⟨-, -, hend⟩ | ⟨-, -, hworld⟩⟩
  · rwa [hworld] at h
  · cases hfails.symm.trans hend
  · rw [hworld] at h
    exact sweep_subset hashes faults.chunk w.store 0 x h

/-- A purge that does not commit leaves the tables as they were; it leaves the objects
there exactly if it takes none before a failure. -/
theorem purge_keeps_iff : ((purgeContentUnder svc pg faults content w).committed = false →
      (purgeContentUnder svc pg faults content w).world =
        { w with store := (purgeContentUnder svc pg faults content w).world.store } ∧
      ∀ x, (w.store x).isSome = true →
        ((purgeContentUnder svc pg faults content w).world.store x).isSome = true) ↔
    TakesLast svc pg faults content w := by
  rcases @purgeContentUnder_cases svc pg faults content w with
    ⟨hnot, hworld⟩ | ⟨id, hashes, hreaches, ⟨hok, hcommit, hend⟩ | ⟨hfails, hend, hworld⟩⟩
  · rw [hworld]
    exact ⟨fun _ id hashes h => absurd h (hnot id hashes), fun _ _ => ⟨rfl, fun _ h => h⟩⟩
  · rw [hend]
    refine ⟨fun _ id' hashes' h' _ _ _ _ _ => ?_, fun _ h => (by cases h)⟩
    obtain rfl : id = id' := Except.ok.inj (hreaches.idParam.symm.trans h'.idParam)
    obtain rfl : hashes = hashes' := Option.some.inj (hreaches.parses.symm.trans h'.parses)
    exact ⟨(sweep_ok_iff hashes faults.chunk w.store 0).mp hok, hcommit⟩
  · rw [hend, hworld]
    have hkeeps := @sweep_keeps_iff pg (withoutContent id w).contents hashes
      faults.chunk w.store 0
    constructor
    · intro h id' hashes' h' j hash hj hx hbefore
      obtain rfl : id = id' := Except.ok.inj (hreaches.idParam.symm.trans h'.idParam)
      obtain rfl : hashes = hashes' := Option.some.inj (hreaches.parses.symm.trans h'.parses)
      obtain ⟨i, hi, hash', hget, hbad⟩ := hkeeps.mp (h rfl).2 j hash hj hx
      exact absurd hbad (hbefore i hi hash' hget)
    · refine fun h _ => ⟨rfl, hkeeps.mpr fun j hash hj hx => ?_⟩
      by_contra hbefore
      push Not at hbefore
      obtain ⟨hall, hcommit⟩ := h id hashes hreaches j hash hj hx hbefore
      exact hfails ⟨(sweep_ok_iff hashes faults.chunk w.store 0).mpr hall, hcommit⟩

end Purge

/-- Content of two chunks that no file has. -/
def twoChunks : World where
  store h := if h = ascii "aaaa" ∨ h = ascii "bbbb" then some h else none
  files := []
  contents := [{ id := Uuid.nil, hash := ascii "aabb", size := 8
                 chunkHashes := hashArray [ascii "aaaa", ascii "bbbb"], mimeType := [] }]
  folders := []
  shares := []
  users := []
  redis _ := none
  time := 0
  draws n := n
  uuids _ := Uuid.nil

/-- The commit fails, and both objects are gone. -/
theorem commit_fails_objects_gone : ¬ ∀ (svc : Services) (pg : Postgres) (faults : PurgeFaults)
    (content : ContentRecord) (w : World),
    (purgeContentUnder svc pg faults content w).committed = false →
    (purgeContentUnder svc pg faults content w).world =
      { w with store := (purgeContentUnder svc pg faults content w).world.store } ∧
    ∀ x, (w.store x).isSome = true →
      ((purgeContentUnder svc pg faults content w).world.store x).isSome = true := by
  intro h
  let faults : PurgeFaults := { commit := some { kind := .pqxx, what := ascii "connection lost" } }
  let content : ContentRecord :=
    { id := Uuid.nil.text, chunkHashes := ascii "[\"aaaa\",\"bbbb\"]" }
  have hkept := (h sampleServices samplePostgres faults content twoChunks (by decide +kernel)).2
    (ascii "aaaa") (by decide)
  have hgone : ((purgeContentUnder sampleServices samplePostgres faults content twoChunks).world.store
      (ascii "aaaa")).isSome = false := by decide +kernel
  rw [hgone] at hkept
  cases hkept

end SolarDrive.Metadata
