import ClusterManager.Lib.Watch
import ClusterManager.Model.SlotMigration

/-!
# No key is lost on the way

`migrateSlotShared` does not see to it that a slot is empty when it hands it over, but what it
does to the keys is safe: a key that the source held is on the source or on the destination, at
every moment of the migration and whatever fails.

What is asked of Redis for that is `MigratesSafely`, over anything that tells what the two nodes
hold under a key. A `MIGRATE` may leave a key where it is, copy it, or move it (`KeyMove`), and
nothing is said about when it does which: a command that fails may have done any of it. With
`COPY` it does not take the key from the source, and when it *succeeds* the destination has the
key. No reply to any other command is relied on, so a size or an existence that is told wrong
does no harm either.

Of the commands that are sent only `DEL` takes a key away. It is sent for one key, right after
the `COPY` of that key has succeeded, and that is the whole argument
(`migrateBigKey_throughout`).
-/

namespace ClusterManager

/-! ### What is assumed of Redis -/

variable {σ β : Type}

/-- What a `MIGRATE` may do to a key, by what the source and the destination hold under it. -/
inductive KeyMove : Option β × Option β → Option β × Option β → Prop
  | stays (p : Option β × Option β) : KeyMove p p
  | copied (v : β) (d : Option β) : KeyMove (some v, d) (some v, some v)
  | moved (v : β) (d : Option β) : KeyMove (some v, d) (none, some v)

/-- A command that is about neither the value of a key nor its place. -/
def SlotCmd.Administers : SlotCmd → Prop
  | .migrateKeys _ _ _ _ | .migrateCopy _ _ _ _ | .del _ => False
  | .setImporting _ _ | .setMigrating _ _ | .getKeysInSlot _ _ | .memoryUsage _ | .existsKey _
  | .setNode _ _ _ => True

/-- **What is assumed of Redis**, where `source` and `dest` tell what the two nodes hold. -/
structure MigratesSafely (h : Handler SlotCmd SlotCmd.Reply σ)
    (source dest : σ → String → Option β) : Prop where
  /-- A key leaves the source only for the destination. -/
  migrateKeys : ∀ s host port keys timeoutMs k, KeyMove (source s k, dest s k)
    (source (h s (.migrateKeys host port keys timeoutMs)).2 k,
      dest (h s (.migrateKeys host port keys timeoutMs)).2 k)
  /-- A copy leaves the key on the source. -/
  migrateCopy : ∀ s host port key timeoutMs k, KeyMove (source s k, dest s k)
      (source (h s (.migrateCopy host port key timeoutMs)).2 k,
        dest (h s (.migrateCopy host port key timeoutMs)).2 k) ∧
    source (h s (.migrateCopy host port key timeoutMs)).2 k = source s k
  /-- A copy that succeeds has been stored. -/
  copy_stored : ∀ s host port key timeoutMs v,
    (h s (.migrateCopy host port key timeoutMs)).1 = .ok () → source s key = some v →
      dest (h s (.migrateCopy host port key timeoutMs)).2 key = some v
  /-- A delete takes its key off the source, or fails to. -/
  del : ∀ s key k, dest (h s (.del key)).2 k = dest s k ∧
    (source (h s (.del key)).2 k = source s k ∨ k = key ∧ source (h s (.del key)).2 k = none)
  /-- No other command touches a key. -/
  administers : ∀ s c k, c.Administers →
    source (h s c).2 k = source s k ∧ dest (h s c).2 k = dest s k

/-- A key is where it was, or it is on the destination. -/
def Kept (source dest : σ → String → Option β) (k : String) (v : β) (s : σ) : Prop :=
  source s k = some v ∨ source s k = none ∧ dest s k = some v

section Kept

variable {h : Handler SlotCmd SlotCmd.Reply σ} {source dest : σ → String → Option β}
  {t : SlotTask} {k : String} {v : β} {s : σ}

theorem KeyMove.kept {p p' : Option β × Option β} (hmove : KeyMove p p')
    (hp : p.1 = some v ∨ p.1 = none ∧ p.2 = some v) :
    p'.1 = some v ∨ p'.1 = none ∧ p'.2 = some v := by
  rcases hmove with _ | ⟨w, d⟩ | ⟨w, d⟩
  · exact hp
  · exact Or.inl (hp.resolve_right fun hnone => by cases hnone.1)
  · exact Or.inr ⟨rfl, hp.resolve_right fun hnone => by cases hnone.1⟩

/-- A command that takes no key away keeps every key. -/
theorem Kept.send (hsafe : MigratesSafely h source dest) {c : SlotCmd} (hc : ∀ key, c ≠ .del key)
    (hs : Kept source dest k v s) : Kept source dest k v (h s c).2 := by
  by_cases hadmin : c.Administers
  · obtain ⟨hsource, hdest⟩ := hsafe.administers s c k hadmin
    rwa [Kept, hsource, hdest]
  match c with
  | .migrateKeys host port keys timeoutMs =>
    exact (hsafe.migrateKeys s host port keys timeoutMs k).kept hs
  | .migrateCopy host port key timeoutMs =>
    exact (hsafe.migrateCopy s host port key timeoutMs k).1.kept hs
  | .del key => exact absurd rfl (hc key)
  | .setImporting _ _ | .setMigrating _ _ | .getKeysInSlot _ _ | .memoryUsage _ | .existsKey _
  | .setNode _ _ _ => exact absurd trivial hadmin

/-- A program that deletes nothing keeps every key, at every moment. -/
theorem throughout_kept (hsafe : MigratesSafely h source dest) {α : Type} {p : SlotProgram α}
    (hp : p.Sends fun c => ∀ key, c ≠ .del key) (hs : Kept source dest k v s) :
    p.Throughout h (Kept source dest k v) s :=
  fun _ => hp.runFor_inv (fun _ _ hc hs' => hs'.send hsafe hc) hs

/-- **A big key is deleted when it has been copied**, and not before. -/
theorem migrateBigKey_throughout (hsafe : MigratesSafely h source dest) (key : String) (size : ℕ)
    (hs : Kept source dest k v s) :
    (migrateBigKey t key size).Throughout h (Kept source dest k v) s := by
  have hcopy : Kept source dest k v (h s (copyCmd t key size)).2 := hs.send hsafe nofun
  refine Program.Throughout.bind (Program.throughout_send hs hcopy) ?_
  rw [Program.run_send]
  rcases hr : (h s (copyCmd t key size)).1 with err | ok
  · exact Program.throughout_pure hcopy
  · have hdel : Kept source dest k v (h (h s (copyCmd t key size)).2 (.del key)).2 := by
      obtain ⟨hdest, hsource⟩ := hsafe.del (h s (copyCmd t key size)).2 key k
      rcases hsource with hsource | ⟨rfl, hsource⟩
      · rwa [Kept, hsource, hdest]
      · refine Or.inr ⟨hsource, hdest.trans ?_⟩
        rcases hs with hs | ⟨hs, -⟩
        · exact hsafe.copy_stored s _ _ _ _ v hr hs
        · -- the key is not on the source, so it is on the destination already
          rcases hcopy with hcopy | hcopy
          · rw [(hsafe.migrateCopy s _ _ _ _ k).2, hs] at hcopy
            cases hcopy
          · exact hcopy.2
    exact Program.Throughout.bind (Program.throughout_send hcopy hdel)
      (Program.throughout_pure hdel)

/-! ### The migration -/

theorem migrateSlotKeys_throughout (hsafe : MigratesSafely h source dest) (keys : List String)
    (hs : Kept source dest k v s) :
    (migrateSlotKeys t keys).Throughout h (Kept source dest k v) s := by
  rw [migrateSlotKeys]
  split
  · exact throughout_kept hsafe ((migrateKeyBatch_spares t keys 5000).mono fun _ hc => hc.2) hs
  have hclass : (classifyKeys keys).Throughout h (Kept source dest k v) s :=
    throughout_kept hsafe ((classifyKeys_spares keys).mono fun _ hc => hc.2) hs
  refine hclass.bind ?_
  have hbig := Program.throughout_forM (h := h) (I := Kept source dest k v)
    (f := fun x : String × ℕ => do
      let _ ← migrateBigKey t x.1 x.2
      return ⟨⟩) ((classifyKeys keys).run h s).1.2.1
    (fun x s' hs' => (migrateBigKey_throughout hsafe x.1 x.2 hs').bind
      (Program.throughout_pure (migrateBigKey_throughout hsafe x.1 x.2 hs').last)) hclass.last
  refine hbig.bind (Program.throughout_forM _ (fun chunk s' hs' => ?_) hbig.last)
  exact throughout_kept hsafe ((migrateChunk_spares t chunk).mono fun _ hc => hc.2) hs'

theorem migrateSlotShared_throughout (hsafe : MigratesSafely h source dest) (t : SlotTask)
    (hs : Kept source dest k v s) :
    (migrateSlotShared t).Throughout h (Kept source dest k v) s := by
  have hsend : ∀ (c : SlotCmd) (s : σ), (∀ key, c ≠ .del key) → Kept source dest k v s →
      (sendCmd c).Throughout h (Kept source dest k v) s := fun c s hc hs =>
    Program.throughout_send hs (hs.send hsafe hc)
  have hfinalize : ∀ s, Kept source dest k v s →
      (finalizeSlotMigration t).Throughout h (Kept source dest k v) s := by
    intro s hs
    refine (hsend (.setNode .dest t.slot t.toID) s nofun hs).bind ?_
    have hlast := (hsend (.setNode .dest t.slot t.toID) s nofun hs).last
    split
    · exact Program.throughout_pure hlast
    refine (hsend (.setNode .source t.slot t.toID) _ nofun hlast).bind ?_
    have hlast' := (hsend (.setNode .source t.slot t.toID) _ nofun hlast).last
    split <;> exact Program.throughout_pure hlast'
  have hsetup : (setupSlotMigration t).Throughout h (Kept source dest k v) s := by
    refine (hsend (.setImporting t.slot t.fromID) s nofun hs).bind ?_
    have hlast := (hsend (.setImporting t.slot t.fromID) s nofun hs).last
    split
    · exact Program.throughout_pure hlast
    refine (hsend (.setMigrating t.slot t.toID) _ nofun hlast).bind ?_
    have hlast' := (hsend (.setMigrating t.slot t.toID) _ nofun hlast).last
    split <;> exact Program.throughout_pure hlast'
  refine hsetup.bind ?_
  split
  · exact Program.throughout_pure hsetup.last
  have hget := hsend (.getKeysInSlot t.slot 1000) _ nofun hsetup.last
  refine hget.bind ?_
  dsimp only
  split
  · have hkeys := migrateSlotKeys_throughout (t := t) hsafe (Except.toOption
      ((sendCmd (.getKeysInSlot t.slot 1000)).run h
        ((setupSlotMigration t).run h s).2).1 |>.getD [])
      hget.last
    exact hkeys.bind (hfinalize _ hkeys.last)
  · exact hfinalize _ hget.last

end Kept

/-- **No key is lost by a migration.** Whatever Redis answers, a key that the source held is held
with the same value by the source or by the destination when the migration is over. -/
theorem migrateSlotShared_keeps_keys (h : Handler SlotCmd SlotCmd.Reply σ)
    (source dest : σ → String → Option β) (hsafe : MigratesSafely h source dest) (t : SlotTask)
    (s : σ) (k : String) (v : β) (hk : source s k = some v) :
    source ((migrateSlotShared t).run h s).2 k = some v ∨
      dest ((migrateSlotShared t).run h s).2 k = some v := by
  have hkept : Kept source dest k v ((migrateSlotShared t).run h s).2 :=
    (migrateSlotShared_throughout hsafe t (Or.inl hk)).last
  exact hkept.imp_right And.right

/-! ### The nodes of the model -/

namespace SlotState

variable {s : SlotState} {p : String → Bool} {k : String}

theorem find_remove : (s.remove p).find k = if p k then none else s.find k := by
  rw [find, remove, List.find?_filter]
  split
  · rename_i hp
    refine List.find?_eq_none.mpr fun e _ he => ?_
    simp only [decide_eq_true_eq] at he
    obtain ⟨hne, rfl⟩ := he
    simp [hp] at hne
  · rename_i hp
    refine congrArg (fun q => s.source.find? q) (funext fun e => ?_)
    by_cases he : e.key = k
    · simp [he, hp]
    · simp [he]

/-- What the source holds under a key. -/
def sourceValue (s : SlotState) (k : String) : Option String := (s.find k).map Entry.value

theorem sourceValue_remove :
    (s.remove p).sourceValue k = if p k then none else s.sourceValue k := by
  rw [sourceValue, find_remove]
  split <;> rfl

theorem dest_copy :
    (s.copy p).dest k = if p k then (s.sourceValue k).or (s.dest k) else s.dest k := rfl

/-- A copy of some keys, of which some are given up. -/
theorem keyMove_copy_remove (s : SlotState) (p : String → Bool) (k : String) :
    KeyMove (s.sourceValue k, s.dest k)
      (((s.copy p).remove p).sourceValue k, ((s.copy p).remove p).dest k) := by
  rw [sourceValue_remove, show ((s.copy p).remove p).dest k = (s.copy p).dest k from rfl, dest_copy,
    show (s.copy p).sourceValue k = s.sourceValue k from rfl]
  split
  · rcases s.sourceValue k with _ | v
    · exact .stays _
    · exact .moved v _
  · exact .stays _

theorem keyMove_copy (s : SlotState) (p : String → Bool) (k : String) :
    KeyMove (s.sourceValue k, s.dest k) ((s.copy p).sourceValue k, (s.copy p).dest k) := by
  rw [dest_copy, show (s.copy p).sourceValue k = s.sourceValue k from rfl]
  split
  · rcases s.sourceValue k with _ | v
    · exact .stays _
    · exact .copied v _
  · exact .stays _

end SlotState

/-- The nodes of the model are safe, whatever fails. -/
theorem slotHandler_migratesSafely (f : Faults) :
    MigratesSafely (slotHandler f) SlotState.sourceValue SlotState.dest where
  migrateKeys s _ _ _ _ k := s.keyMove_copy_remove _ k
  migrateCopy s host port key timeoutMs k := by
    change KeyMove _ (SlotState.sourceValue (if _ then _ else _) k,
      SlotState.dest (if _ then _ else _) k) ∧ SlotState.sourceValue (if _ then _ else _) k = _
    split
    · exact ⟨s.keyMove_copy _ k, rfl⟩
    · exact ⟨.stays _, rfl⟩
  copy_stored s host port key timeoutMs v hok hv := by
    have herr : f.error (.migrateCopy host port key timeoutMs) = none := by
      rcases herr : f.error (.migrateCopy host port key timeoutMs) with _ | err
      · rfl
      · simp [slotHandler, Faults.reply, herr] at hok
    change SlotState.dest (if _ then _ else _) key = some v
    rw [if_pos (by rw [Faults.acts, herr]; rfl), SlotState.dest_copy, hv]
    simp
  del s key k := by
    change SlotState.dest (if _ then _ else _) k = _ ∧
      (SlotState.sourceValue (if _ then _ else _) k = _ ∨
        k = key ∧ SlotState.sourceValue (if _ then _ else _) k = none)
    split
    · rw [SlotState.sourceValue_remove]
      refine ⟨rfl, ?_⟩
      by_cases hk : k = key
      · exact Or.inr ⟨hk, if_pos (decide_eq_true hk)⟩
      · exact Or.inl (if_neg (by simpa using hk))
    · exact ⟨rfl, Or.inl rfl⟩
  administers s c k hc := by
    cases c with
    | setImporting | setMigrating =>
      change SlotState.sourceValue (if _ then _ else _) k = _ ∧
        SlotState.dest (if _ then _ else _) k = _
      split <;> exact ⟨rfl, rfl⟩
    | setNode side =>
      cases side <;>
      · change SlotState.sourceValue (if _ then _ else _) k = _ ∧
          SlotState.dest (if _ then _ else _) k = _
        split <;> exact ⟨rfl, rfl⟩
    | getKeysInSlot | memoryUsage | existsKey => exact ⟨rfl, rfl⟩
    | migrateKeys | migrateCopy | del => exact hc.elim

/-- A node whose `MIGRATE` fails after it has moved the key: the key is on the destination. -/
theorem keeps_keys_of_migrate_error :
    ((migrateSlotShared
        { slot := 7, fromID := "a", fromIP := "10.0.0.1", toID := "b", toIP := "10.0.0.2"
          destHostPort := 7002, fromHostPort := 7001, containerPort := 6379 }).run
      (slotHandler
        { error := fun c => match c with
            | .migrateKeys _ _ _ _ => some "IOERR error or timeout reading to target instance"
            | _ => none
          moved := fun _ _ => true })
      { source := [⟨"k", "v", 64⟩], owner := fun _ => "a" }).2.dest "k" = some "v" := by
  refine (migrateSlotShared_keeps_keys _ _ _ (slotHandler_migratesSafely _) _
    { source := [⟨"k", "v", 64⟩], owner := fun _ => "a" } "k" "v" rfl).resolve_left ?_
  decide

end ClusterManager
