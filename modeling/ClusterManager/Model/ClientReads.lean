import ClusterManager.Model.KeySafety
import ClusterManager.Model.OpenSlots
import ClusterManager.Model.Parallel

/-!
# What a client finds while slots are moved

A slot that is being moved is served all the time, and this is what the order of the commands in
`migrateSlotShared` is there for. A client asks the node that owned the slot. That node answers
from what it holds; while it is migrating the slot it sends the client on to the destination for
what it does not hold, and the destination answers if it is importing the slot or owns it; when
it has given the slot up it sends the client on for good. `SlotState.read` is this protocol.

A key is found at every moment if three things are in order (`Reachable`): it is on one of the two
nodes, it is not gone from the source before both sides are marked, and the source does not give
the slot up before the destination has taken it. The first is `Kept`. The other two are what the
phases of a migration see to: keys are moved between the two marks and the two hand-overs only.

The source gives the slot up whether or not keys are left on it, and then those are found no more.
This is the only way in which a key gets out of reach: `reads_throughout` says so for all workers
side by side, at every moment, whatever fails.
-/

namespace ClusterManager

/-! ### How a client reads a key -/

namespace SlotState

variable (s : SlotState) (t : SlotTask) (key : String)

/-- What the destination answers to a client that is sent there while the slot is migrated. -/
def ask : Option String :=
  if s.owner .dest = t.toID ∨ s.importing.isSome then s.dest key else none

/-- What a client finds that asks the source first. -/
def read : Option String :=
  if s.owner .source = t.fromID then
    (s.sourceValue key).or (if s.migrating = some t.toID then s.ask t key else none)
  else if s.owner .source = t.toID ∧ s.owner .dest = t.toID then s.dest key
  else none

end SlotState

/-- The key is on one of the two nodes, and the marks and the owners lead there. -/
structure Reachable (t : SlotTask) (k v : String) (s : SlotState) : Prop where
  kept : Kept SlotState.sourceValue SlotState.dest k v s
  migrating : s.owner .source = t.fromID → s.sourceValue k = none → s.migrating = some t.toID
  importing : s.sourceValue k = none → s.owner .dest = t.toID ∨ s.importing.isSome
  /-- The destination takes the slot before the source gives it up. -/
  order : s.owner .source = t.fromID ∨ s.owner .source = t.toID ∧ s.owner .dest = t.toID

/-- Both sides are marked, and the source owns the slot. -/
structure Opened (t : SlotTask) (s : SlotState) : Prop where
  migrating : s.migrating = some t.toID
  importing : s.importing.isSome
  owner : s.owner .source = t.fromID

section Reading

variable {t : SlotTask} {k v : String} {s : SlotState}

/-- A key that is found has been found where the marks lead. -/
theorem reachable_of_read (howner : s.owner .source = t.fromID) (hread : s.read t k = some v) :
    Reachable t k v s := by
  rw [SlotState.read, if_pos howner] at hread
  rcases hsource : s.sourceValue k with _ | w
  · rw [hsource, Option.none_or] at hread
    split at hread
    · rename_i hmigrating
      rw [SlotState.ask] at hread
      split at hread
      · rename_i htaken
        exact ⟨Or.inr ⟨hsource, hread⟩, fun _ _ => hmigrating, fun _ => htaken, Or.inl howner⟩
      · cases hread
    · cases hread
  · rw [hsource, Option.some_or] at hread
    refine ⟨Or.inl (hsource.trans hread), ?_, ?_, Or.inl howner⟩
    · exact fun _ hnone => absurd (hsource.symm.trans hnone) (Option.some_ne_none w)
    · exact fun hnone => absurd (hsource.symm.trans hnone) (Option.some_ne_none w)

/-- **A reachable key is found**, unless the source has given up the slot and kept the key. -/
theorem Reachable.read (hids : t.fromID ≠ t.toID) (h : Reachable t k v s) :
    s.read t k = some v ∨ s.owner .source = t.toID ∧ s.sourceValue k = some v := by
  rw [SlotState.read]
  rcases h.order with howner | ⟨hsource, hdest⟩
  · rw [if_pos howner]
    rcases h.kept with hkept | ⟨hnone, hkept⟩
    · exact Or.inl (by rw [hkept, Option.some_or])
    · rw [hnone, Option.none_or, if_pos (h.migrating howner hnone), SlotState.ask,
        if_pos (h.importing hnone)]
      exact Or.inl hkept
  · rw [if_neg (hsource ▸ hids.symm), if_pos ⟨hsource, hdest⟩]
    rcases h.kept with hkept | ⟨-, hkept⟩
    · exact Or.inr ⟨hsource, hkept⟩
    · exact Or.inl hkept

/-- Between the marks and the hand-over, a key only has to be kept. -/
theorem Opened.reachable (h : Opened t s)
    (hkept : Kept SlotState.sourceValue SlotState.dest k v s) :
    Reachable t k v s :=
  ⟨hkept, fun _ _ => h.migrating, fun _ => Or.inr h.importing, Or.inl h.owner⟩

end Reading

/-! ### What the commands do -/

section Commands

variable {hashSlot : String → ℤ} {f : Faults} {t : SlotTask} {k v : String} {s : SlotState}

@[simp] theorem listsOwnKeys_snd {σ : Type} (hashSlot : String → ℤ)
    (h : Handler SlotCmd SlotCmd.Reply σ) (s : σ) (c : SlotCmd) :
    (listsOwnKeys hashSlot h s c).2 = (h s c).2 := by
  cases c <;> rfl

/-- Listing fewer keys does no harm. -/
theorem MigratesSafely.listsOwnKeys {σ β : Type} {h : Handler SlotCmd SlotCmd.Reply σ}
    {source dest : σ → String → Option β} (hsafe : MigratesSafely h source dest)
    (hashSlot : String → ℤ) : MigratesSafely (listsOwnKeys hashSlot h) source dest where
  migrateKeys := hsafe.migrateKeys
  migrateCopy := hsafe.migrateCopy
  copy_stored := hsafe.copy_stored
  del := hsafe.del
  administers s c k hc := by
    rw [listsOwnKeys_snd]
    exact hsafe.administers s c k hc

/-- The cluster's answer to a command, at its slot. -/
abbrev slotCell (hashSlot : String → ℤ) (f : Faults) : Handler SlotCmd SlotCmd.Reply SlotState :=
  listsOwnKeys hashSlot (slotHandler f)

/-- A command that succeeds has taken effect. -/
theorem acts_of_reply {c : SlotCmd} (h : f.reply c () = .ok ()) : f.acts c := by
  rcases herr : f.error c with _ | err
  · rw [Faults.acts, herr]
    rfl
  · rw [Faults.reply, herr] at h
    cases h

/-- Moving keys moves no mark and no owner. -/
theorem Opened.send {c : SlotCmd} (hc : c.onKeys) (hs : Opened t s) :
    Opened t (slotCell hashSlot f s c).2 := by
  rw [listsOwnKeys_snd]
  rcases c with _ | _ | _ | _ | _ | _ | _ | _ | _
  case memoryUsage | existsKey | migrateKeys => exact ⟨hs.migrating, hs.importing, hs.owner⟩
  case migrateCopy | del =>
    simp only [slotHandler, SlotState.effect]
    split <;> exact ⟨hs.migrating, hs.importing, hs.owner⟩
  all_goals exact absurd hc Bool.false_ne_true

theorem Reachable.setImporting (hs : Reachable t k v s) :
    Reachable t k v (slotCell hashSlot f s (.setImporting t.slot t.fromID)).2 := by
  simp only [listsOwnKeys_snd, slotHandler, SlotState.effect]
  split
  · exact ⟨hs.kept, hs.migrating, fun _ => Or.inr rfl, hs.order⟩
  · exact hs

theorem Reachable.setMigrating (hs : Reachable t k v s) :
    Reachable t k v (slotCell hashSlot f s (.setMigrating t.slot t.toID)).2 := by
  simp only [listsOwnKeys_snd, slotHandler, SlotState.effect]
  split
  · exact ⟨hs.kept, fun _ _ => rfl, hs.importing, hs.order⟩
  · exact hs

/-- The destination takes the slot. -/
theorem Opened.setNode_dest (hs : Opened t s)
    (hkept : Kept SlotState.sourceValue SlotState.dest k v s) :
    Reachable t k v (slotCell hashSlot f s (.setNode .dest t.slot t.toID)).2 := by
  simp only [listsOwnKeys_snd, slotHandler, SlotState.effect]
  split
  · exact ⟨hkept, fun _ _ => hs.migrating,
      fun _ => Or.inl (Function.update_self Side.dest t.toID s.owner), Or.inl hs.owner⟩
  · exact hs.reachable hkept

/-- The source gives up a slot that the destination has taken. -/
theorem Reachable.setNode_source (hids : t.fromID ≠ t.toID) (hs : Reachable t k v s)
    (hdest : s.owner .dest = t.toID) :
    Reachable t k v (slotCell hashSlot f s (.setNode .source t.slot t.toID)).2 := by
  simp only [listsOwnKeys_snd, slotHandler, SlotState.effect]
  split
  · have hgiven := Function.update_self Side.source t.toID s.owner
    refine ⟨hs.kept, fun howner _ => ?_, fun _ => Or.inl hdest, Or.inr ⟨hgiven, hdest⟩⟩
    exact absurd (hgiven.symm.trans howner).symm hids
  · exact hs

/-! ### The migration -/

theorem setupSlotMigration_reachable (hs : Reachable t k v s) :
    (setupSlotMigration t).Throughout (slotCell hashSlot f) (Reachable t k v) s := by
  have himp : Reachable t k v (slotCell hashSlot f s (.setImporting t.slot t.fromID)).2 :=
    hs.setImporting
  refine Program.Throughout.bind (Program.throughout_send hs himp) ?_
  split
  · exact Program.throughout_pure himp
  have hmig : Reachable t k v (slotCell hashSlot f
      (slotCell hashSlot f s (.setImporting t.slot t.fromID)).2 (.setMigrating t.slot t.toID)).2 :=
    himp.setMigrating
  refine Program.Throughout.bind (Program.throughout_send himp hmig) ?_
  split <;> exact Program.throughout_pure hmig

/-- When the marks have been set without an error, they are there. -/
theorem opened_of_setup (howner : s.owner .source = t.fromID)
    (hok : ((setupSlotMigration t).run (slotCell hashSlot f) s).1 = .ok ()) :
    Opened t ((setupSlotMigration t).run (slotCell hashSlot f) s).2 := by
  rw [setupSlotMigration, Program.run_bind, Program.run_send] at hok ⊢
  rcases himp : (slotCell hashSlot f s (.setImporting t.slot t.fromID)).1 with err | _
  · rw [himp] at hok
    cases hok
  rw [himp] at hok
  dsimp only at hok ⊢
  rw [Program.run_bind, Program.run_send] at hok ⊢
  rcases hmig : (slotCell hashSlot f (slotCell hashSlot f s (.setImporting t.slot t.fromID)).2
    (.setMigrating t.slot t.toID)).1 with err | _
  · rw [hmig] at hok
    cases hok
  simp only [Program.run_pure, listsOwnKeys_snd, slotHandler, SlotState.effect,
    if_pos (acts_of_reply himp), if_pos (acts_of_reply hmig)]
  exact ⟨rfl, rfl, howner⟩

theorem finalizeSlotMigration_reachable (hids : t.fromID ≠ t.toID) (hs : Opened t s)
    (hkept : Kept SlotState.sourceValue SlotState.dest k v s) :
    (finalizeSlotMigration t).Throughout (slotCell hashSlot f) (Reachable t k v) s := by
  have hdest : Reachable t k v (slotCell hashSlot f s (.setNode .dest t.slot t.toID)).2 :=
    hs.setNode_dest hkept
  refine Program.Throughout.bind (Program.throughout_send (hs.reachable hkept) hdest) ?_
  rw [Program.run_send]
  rcases hreply : (slotCell hashSlot f s (.setNode .dest t.slot t.toID)).1 with err | ok
  · exact Program.throughout_pure hdest
  have htaken : (slotCell hashSlot f s (.setNode .dest t.slot t.toID)).2.owner .dest = t.toID := by
    simp only [listsOwnKeys_snd, slotHandler, SlotState.effect, if_pos (acts_of_reply hreply),
      Function.update_self]
  have hsource : Reachable t k v (slotCell hashSlot f
      (slotCell hashSlot f s (.setNode .dest t.slot t.toID)).2
      (.setNode .source t.slot t.toID)).2 :=
    hdest.setNode_source hids htaken
  refine Program.Throughout.bind (Program.throughout_send hdest hsource) ?_
  split <;> exact Program.throughout_pure hsource

/-- **A migration keeps every key within reach**, at every moment. -/
theorem migrateSlotShared_reachable (hids : t.fromID ≠ t.toID)
    (howner : s.owner .source = t.fromID) (hs : Reachable t k v s) :
    (migrateSlotShared t).Throughout (slotCell hashSlot f) (Reachable t k v) s := by
  have hsafe := (slotHandler_migratesSafely f).listsOwnKeys hashSlot
  have hsetup : (setupSlotMigration t).Throughout (slotCell hashSlot f) (Reachable t k v) s :=
    setupSlotMigration_reachable hs
  refine hsetup.bind ?_
  split
  · exact Program.throughout_pure hsetup.last
  rename_i hok
  have hopened := opened_of_setup howner hok
  have hkept := hsetup.last.kept
  generalize ((setupSlotMigration t).run (slotCell hashSlot f) s).2 = s₁ at hopened hkept ⊢
  -- listing the keys changes nothing
  refine Program.Throughout.bind (Program.throughout_send (hopened.reachable hkept)
    (hopened.reachable hkept)) ?_
  generalize ((sendCmd (.getKeysInSlot t.slot 1000)).run (slotCell hashSlot f) s₁).1 = r
  dsimp only
  split
  · have hkeys := migrateSlotKeys_throughout (t := t) hsafe (r.toOption.getD []) hkept
    have hmarks : (migrateSlotKeys t (r.toOption.getD [])).Throughout (slotCell hashSlot f)
        (Opened t) s₁ :=
      fun _ => (migrateSlotKeys_sends t (r.toOption.getD [])).runFor_inv
        (fun _ _ hc hs => hs.send hc) hopened
    refine Program.Throughout.bind (fun n => (hmarks n).reachable (hkeys n)) ?_
    exact finalizeSlotMigration_reachable hids hmarks.last hkeys.last
  · exact finalizeSlotMigration_reachable hids hopened hkept

end Commands

/-- **A client finds every key at every moment**, however the commands of the workers interleave
and whatever fails. The one exception is a key that the source has kept when it has given its slot
up, and it does not give a slot up before the destination has taken it. -/
theorem reads_throughout (hashSlot : String → ℤ) (f : SlotTask → Faults) {tasks : List SlotTask}
    (hslots : (tasks.map SlotTask.slot).Nodup) {st : ℤ → SlotState} {n : ℕ}
    {z : List (Crew SlotTask SlotCmd SlotCmd.Reply (Except String Unit)) × (ℤ → SlotState)}
    (hrun : MigrationRun hashSlot (fun t => slotHandler (f t)) tasks st n z) :
    (∀ slot, (∀ t ∈ tasks, t.slot ≠ slot) → z.2 slot = st slot) ∧
    ∀ t ∈ tasks, t.fromID ≠ t.toID → (st t.slot).owner .source = t.fromID →
      ∀ k v, (st t.slot).read t k = some v →
        (z.2 t.slot).read t k = some v ∨
          (z.2 t.slot).owner .source = t.toID ∧ (z.2 t.slot).owner .dest = t.toID ∧
            (z.2 t.slot).sourceValue k = some v := by
  have hperm := flatten_groupSlotTasks_perm tasks
  obtain ⟨hcells, hframe⟩ := hrun.moment ((hperm.map SlotTask.slot).nodup_iff.mpr hslots)
    fun t _ => migrateSlotShared_onSlot hashSlot (slotHandler (f t)) t
  constructor
  · exact fun slot hslot => hframe slot fun t ht => hslot t (hperm.subset ht)
  · intro t ht hids howner k v hread
    obtain ⟨m, hm⟩ := hcells t (hperm.symm.subset ht)
    have hreach : Reachable t k v (z.2 t.slot) := by
      rw [hm]
      exact migrateSlotShared_reachable hids howner (reachable_of_read howner hread) m
    refine (hreach.read hids).imp_right fun hleft => ⟨hleft.1, ?_, hleft.2⟩
    rcases hreach.order with howner' | ⟨-, hdest⟩
    · exact absurd (howner'.symm.trans hleft.1) hids
    · exact hdest

/-- The workers can come to an end. -/
theorem exists_finished (hashSlot : String → ℤ) (f : SlotTask → Faults) {tasks : List SlotTask}
    (hslots : (tasks.map SlotTask.slot).Nodup) (st : ℤ → SlotState) :
    ∃ n z, MigrationRun hashSlot (fun t => slotHandler (f t)) tasks st n z ∧ Crew.Idle z.1 :=
  Crew.Run.exists_idle (by decide)
    ((flatten_groupSlotTasks_perm tasks).map SlotTask.slot |>.nodup_iff.mpr hslots)
    (fun t _ => migrateSlotShared_onSlot hashSlot (slotHandler (f t)) t) st

/-- Two slots with a key each, one of which the destination refuses: a run that is finished. -/
theorem reads_throughout_two_slots :
    ∃ n z, MigrationRun (fun k => if k = "a" then 1 else 2) (fun _ => slotHandler secondRefused)
        twoSlotTasks twoSlots n z ∧ Crew.Idle z.1 ∧
      ∀ t ∈ twoSlotTasks, ∀ k, (twoSlots t.slot).read t k = some "v" →
        (z.2 t.slot).read t k = some "v" ∨
          (z.2 t.slot).owner .source = t.toID ∧ (z.2 t.slot).owner .dest = t.toID ∧
            (z.2 t.slot).sourceValue k = some "v" := by
  have hids : ∀ t ∈ twoSlotTasks, t.fromID ≠ t.toID := by decide
  have howners : ∀ t ∈ twoSlotTasks, (twoSlots t.slot).owner .source = t.fromID := by decide
  obtain ⟨n, z, hrun, hidle⟩ := exists_finished (fun k => if k = "a" then 1 else 2)
    (fun _ => secondRefused) (show (twoSlotTasks.map SlotTask.slot).Nodup from by decide) twoSlots
  refine ⟨n, z, hrun, hidle, fun t ht k hread => ?_⟩
  exact (reads_throughout _ (fun _ => secondRefused) (by decide) hrun).2 t ht (hids t ht)
    (howners t ht) k "v" hread

end ClusterManager
