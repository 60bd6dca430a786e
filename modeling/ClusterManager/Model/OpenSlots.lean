import ClusterManager.Model.SlotMigration

/-!
# A migration that fails stays open

`migrateSlotShared` marks the slot as importing on the destination and as migrating on the
source, and the two `SETSLOT NODE` at its end take the marks away again. Each of the four
commands has an exit of its own when it fails, and none of the exits takes back what the
commands before it have done. So a migration that is given up halfway leaves its marks
behind, unless they were there before, or the command that closes a side has been carried
out although it was answered with an error (`migrateSlotShared_leavesNoneOpen_iff`).

The commands that move the keys have nothing to do with the marks
(`marks_run_of_onKeys`), and their errors do not end the migration.
-/

namespace ClusterManager

/-- **A failed migration leaves nothing open**: after an error a side has the slot marked
only if it had it marked before. -/
def LeavesNoneOpen (f : Faults) (t : SlotTask) (s : SlotState) : Prop :=
  ∀ err, ((migrateSlotShared t).run (slotHandler f) s).1 = .error err →
    (((migrateSlotShared t).run (slotHandler f) s).2.importing.isSome → s.importing.isSome) ∧
      (((migrateSlotShared t).run (slotHandler f) s).2.migrating.isSome → s.migrating.isSome)

/-- The first of the four commands that fails finds nothing to be closed: what has been marked
was marked before, and the failed command has not marked its side, or has closed it. -/
def NothingOpened (f : Faults) (t : SlotTask) (s : SlotState) : Prop :=
  if f.error (.setImporting t.slot t.fromID) ≠ none then
    f.applied (.setImporting t.slot t.fromID) = false ∨ s.importing.isSome
  else if f.error (.setMigrating t.slot t.toID) ≠ none then
    s.importing.isSome ∧ (f.applied (.setMigrating t.slot t.toID) = false ∨ s.migrating.isSome)
  else if f.error (.setNode .dest t.slot t.toID) ≠ none then
    (f.applied (.setNode .dest t.slot t.toID) = true ∨ s.importing.isSome) ∧ s.migrating.isSome
  else if f.error (.setNode .source t.slot t.toID) ≠ none then
    f.applied (.setNode .source t.slot t.toID) = true ∨ s.migrating.isSome
  else True

section Exits

variable {f : Faults} {t : SlotTask} {s : SlotState}

/-- Moving keys leaves the marks alone. -/
theorem marks_run_of_onKeys {α : Type} {p : SlotProgram α} (hp : p.Sends fun c => c.onKeys) :
    (p.run (slotHandler f) s).2.importing = s.importing ∧
      (p.run (slotHandler f) s).2.migrating = s.migrating := by
  refine hp.run_inv (I := fun s' : SlotState => s'.importing = s.importing ∧
    s'.migrating = s.migrating) (fun s' c hc hs' => ?_) ⟨rfl, rfl⟩
  have heffect : (slotHandler f s' c).2.importing = s'.importing ∧
      (slotHandler f s' c).2.migrating = s'.migrating := by
    cases c <;> first | exact absurd hc Bool.false_ne_true | skip
    · exact ⟨rfl, rfl⟩
    · exact ⟨rfl, rfl⟩
    · simp only [slotHandler, SlotState.effect]
      split <;> exact ⟨rfl, rfl⟩
    · simp only [slotHandler, SlotState.effect]
      split <;> exact ⟨rfl, rfl⟩
    · exact ⟨rfl, rfl⟩
  exact ⟨heffect.1.trans hs'.1, heffect.2.trans hs'.2⟩

/-- Once both sides are marked, the migration ends with the hand-over. -/
theorem run_migrateSlotShared_of_opened (h1 : f.error (.setImporting t.slot t.fromID) = none)
    (h2 : f.error (.setMigrating t.slot t.toID) = none) :
    ∃ s₁, (migrateSlotShared t).run (slotHandler f) s =
        (finalizeSlotMigration t).run (slotHandler f) s₁ ∧
      s₁.importing.isSome ∧ s₁.migrating.isSome := by
  rw [migrateSlotShared, Program.run_bind, setupSlotMigration_run_of_ok h1 h2]
  dsimp only
  rw [Program.run_bind, Program.run_send]
  split
  · obtain ⟨himp, hmig⟩ := marks_run_of_onKeys (f := f)
      (s := (slotHandler f (s.opened t) (.getKeysInSlot t.slot 1000)).2)
      (migrateSlotKeys_sends t ((slotHandler f (s.opened t)
        (.getKeysInSlot t.slot 1000)).1.toOption.getD []))
    refine ⟨_, Program.run_bind _ _ _ _, ?_, ?_⟩
    · rw [himp]
      rfl
    · rw [hmig]
      rfl
  · exact ⟨_, rfl, rfl, rfl⟩

/-- What an exit with an error leaves open is what its last state has marked. -/
theorem leavesNoneOpen_of_run {msg : String} {s' : SlotState}
    (hrun : (migrateSlotShared t).run (slotHandler f) s = (.error msg, s')) :
    LeavesNoneOpen f t s ↔ (s'.importing.isSome → s.importing.isSome) ∧
      (s'.migrating.isSome → s.migrating.isSome) := by
  rw [LeavesNoneOpen, hrun]
  exact ⟨fun h => h msg rfl, fun h _ _ => h⟩

theorem reply_of_error {c : SlotCmd} {err : String} (herr : f.error c = some err) :
    f.reply c () = .error err := by
  rw [Faults.reply, herr]

theorem reply_of_none {c : SlotCmd} (hnone : f.error c = none) : f.reply c () = .ok () := by
  rw [Faults.reply, hnone]

/-- The exit after `SETSLOT IMPORTING`. -/
theorem run_of_importing_error {err : String}
    (h1 : f.error (.setImporting t.slot t.fromID) = some err) :
    ∃ msg, (migrateSlotShared t).run (slotHandler f) s =
      (.error msg, s.effect f (.setImporting t.slot t.fromID)) := by
  refine ⟨s!"IMPORTING slot {t.slot}: {err}", ?_⟩
  rw [migrateSlotShared, setupSlotMigration]
  simp only [Program.run_bind, Program.run_send, slotHandler, reply_of_error h1, Program.run_pure]

/-- The exit after `SETSLOT MIGRATING`. -/
theorem run_of_migrating_error {err : String}
    (h1 : f.error (.setImporting t.slot t.fromID) = none)
    (h2 : f.error (.setMigrating t.slot t.toID) = some err) :
    ∃ msg, (migrateSlotShared t).run (slotHandler f) s =
      (.error msg, (s.effect f (.setImporting t.slot t.fromID)).effect f
        (.setMigrating t.slot t.toID)) := by
  refine ⟨s!"MIGRATING slot {t.slot}: {err}", ?_⟩
  rw [migrateSlotShared, setupSlotMigration]
  simp only [Program.run_bind, Program.run_send, slotHandler, reply_of_none h1, reply_of_error h2,
    Program.run_pure]

/-- The exit after `SETSLOT NODE` on the destination. -/
theorem run_finalizeSlotMigration_of_dest_error {err : String}
    (h3 : f.error (.setNode .dest t.slot t.toID) = some err) :
    ∃ msg, (finalizeSlotMigration t).run (slotHandler f) s =
      (.error msg, s.effect f (.setNode .dest t.slot t.toID)) := by
  refine ⟨s!"SETSLOT NODE dest slot {t.slot}: {err}", ?_⟩
  rw [finalizeSlotMigration]
  simp only [Program.run_bind, Program.run_send, slotHandler, reply_of_error h3, Program.run_pure]

/-- The exit after `SETSLOT NODE` on the source. -/
theorem run_finalizeSlotMigration_of_source_error {err : String}
    (h3 : f.error (.setNode .dest t.slot t.toID) = none)
    (h4 : f.error (.setNode .source t.slot t.toID) = some err) :
    ∃ msg, (finalizeSlotMigration t).run (slotHandler f) s =
      (.error msg, (s.effect f (.setNode .dest t.slot t.toID)).effect f
        (.setNode .source t.slot t.toID)) := by
  refine ⟨s!"SETSLOT NODE source slot {t.slot}: {err}", ?_⟩
  rw [finalizeSlotMigration]
  simp only [Program.run_bind, Program.run_send, slotHandler, reply_of_none h3, reply_of_error h4,
    Program.run_pure]

theorem run_finalizeSlotMigration_of_none (h3 : f.error (.setNode .dest t.slot t.toID) = none)
    (h4 : f.error (.setNode .source t.slot t.toID) = none) :
    ((finalizeSlotMigration t).run (slotHandler f) s).1 = .ok () := by
  rw [finalizeSlotMigration]
  simp only [Program.run_bind, Program.run_send, slotHandler, reply_of_none h3, reply_of_none h4,
    Program.run_pure]

end Exits

/-- **When a failed migration leaves nothing open.** -/
theorem migrateSlotShared_leavesNoneOpen_iff (f : Faults) (t : SlotTask) (s : SlotState) :
    LeavesNoneOpen f t s ↔ NothingOpened f t s := by
  rw [NothingOpened]
  cases h1 : f.error (.setImporting t.slot t.fromID) with
  | some err =>
    obtain ⟨msg, hrun⟩ := run_of_importing_error (s := s) h1
    rw [leavesNoneOpen_of_run hrun, if_pos (by simp)]
    simp only [SlotState.effect, Faults.acts, h1]
    cases f.applied (.setImporting t.slot t.fromID) <;> simp
  | none =>
  rw [if_neg (by simp)]
  cases h2 : f.error (.setMigrating t.slot t.toID) with
  | some err =>
    obtain ⟨msg, hrun⟩ := run_of_migrating_error (s := s) h1 h2
    rw [leavesNoneOpen_of_run hrun, if_pos (by simp)]
    simp only [SlotState.effect, Faults.acts, h1, h2]
    cases f.applied (.setMigrating t.slot t.toID) <;> simp
  | none =>
  rw [if_neg (by simp)]
  obtain ⟨s₁, hrun, himp, hmig⟩ := run_migrateSlotShared_of_opened (s := s) h1 h2
  cases h3 : f.error (.setNode .dest t.slot t.toID) with
  | some err =>
    obtain ⟨msg, hlast⟩ := run_finalizeSlotMigration_of_dest_error (s := s₁) h3
    rw [leavesNoneOpen_of_run (hrun.trans hlast), if_pos (by simp)]
    simp only [SlotState.effect, Faults.acts, h3]
    cases f.applied (.setNode .dest t.slot t.toID) <;> simp [himp, hmig]
  | none =>
  rw [if_neg (by simp)]
  cases h4 : f.error (.setNode .source t.slot t.toID) with
  | some err =>
    obtain ⟨msg, hlast⟩ := run_finalizeSlotMigration_of_source_error (s := s₁) h3 h4
    rw [leavesNoneOpen_of_run (hrun.trans hlast), if_pos (by simp)]
    simp only [SlotState.effect, Faults.acts, h3, h4]
    cases f.applied (.setNode .source t.slot t.toID) <;> simp [hmig]
  | none =>
    rw [if_neg (by simp), LeavesNoneOpen, hrun, run_finalizeSlotMigration_of_none h3 h4]
    simp

/-- A task that moves slot 7 from a node `a` to a node `b`. -/
def sevenTask : SlotTask where
  slot := 7
  fromID := "a"
  fromIP := "10.0.0.2"
  toID := "b"
  toIP := "10.0.0.3"
  destHostPort := 7002
  fromHostPort := 7001
  containerPort := 6379

/-- The source refuses to migrate the slot, and the destination goes on importing it. -/
theorem not_leavesNoneOpen_of_refused :
    ¬ LeavesNoneOpen
      { error := fun c =>
          if c = .setMigrating 7 "b" then some "ERR I'm not the owner of hash slot 7" else none }
      sevenTask { source := [], owner := fun _ => "c" } := by
  intro hnone
  have hrun : ((migrateSlotShared sevenTask).run (slotHandler
      { error := fun c =>
          if c = .setMigrating 7 "b" then some "ERR I'm not the owner of hash slot 7" else none })
      { source := [], owner := fun _ => "c" }).1 =
        .error "MIGRATING slot 7: ERR I'm not the owner of hash slot 7" := by decide
  exact absurd ((hnone _ hrun).1 (by decide)) (by decide)

end ClusterManager
