import ClusterManager.Model.Flags

/-!
# Waiting until the nodes have met

After the nodes have been told of each other, the manager waits until every node sees all
of them. It looks for the word `connected` anywhere in a line, which is also in
`disconnected`, and it leaves out every line with the letters `fail` in its flags, which
are also in `nofailover`. So the number it compares is not the number of live links: it is
too high by the links that are down and too low by the live ones with such a flag
(`liveNodes_add_miscounted`). The wait ends soundly as long as the two make up for each
other in the reply that ends it, or an earlier reply has shown the right number without
being counted as such (`waitForMeetSync_sound_iff`).
-/

namespace ClusterManager

/-! ### Live links and what is counted -/

/-- The line of a node with a live link: it is not flagged `fail` or `fail?`, and the state
of the link is `connected`. -/
def IsLive (line : String) : Prop :=
  IsNodeLine line ∧ "fail" ∉ lineFlags line ∧ "fail?" ∉ lineFlags line ∧
    lineField line 7 = "connected"

instance (line : String) : Decidable (IsLive line) := inferInstanceAs (Decidable (_ ∧ _))

/-- The number of live links that a reply shows. -/
def liveNodes (text : String) : ℕ := (Text.split '\n' text).countP fun line => IsLive line

/-- The link is not up, but the line has the word in it. -/
def IsMiscounted (line : String) : Prop :=
  IsNodeLine line ∧ ¬ HasLetters line "fail" ∧ Text.contains line "connected" ∧
    lineField line 7 ≠ "connected"

instance (line : String) : Decidable (IsMiscounted line) := inferInstanceAs (Decidable (_ ∧ _))

/-- The link is live, but the flags have the letters in them. -/
def IsOverlooked (line : String) : Prop := IsLive line ∧ HasLetters line "fail"

instance (line : String) : Decidable (IsOverlooked line) := inferInstanceAs (Decidable (_ ∧ _))

def miscounted (text : String) : ℕ := (Text.split '\n' text).countP fun line => IsMiscounted line

def overlooked (text : String) : ℕ := (Text.split '\n' text).countP fun line => IsOverlooked line

/-- The line is counted. -/
def IsCounted (line : String) : Prop :=
  IsNodeLine line ∧ ¬ HasLetters line "fail" ∧ Text.contains line "connected"

instance (line : String) : Decidable (IsCounted line) := inferInstanceAs (Decidable (_ ∧ _))

theorem countActiveNodes_eq (text : String) :
    countActiveNodes text = (Text.split '\n' text).countP fun line => IsCounted line := by
  rw [countActiveNodes, List.countP_eq_length_filter]
  refine congrArg List.length (List.filter_congr fun line _ => ?_)
  refine decide_eq_decide.mpr (and_congr_right fun _ => and_congr_left fun _ => ?_)
  rw [hasLetters_fail, Bool.not_eq_true', Bool.not_eq_true]
  rfl

/-- The state of the link is part of the line. -/
theorem contains_of_linkState {line : String} (hline : IsNodeLine line)
    (hlink : lineField line 7 = "connected") : Text.contains line "connected" := by
  have hlen : 7 < (lineFields line).length := hline
  have hmem : lineField line 7 ∈ lineFields line := by
    rw [lineField, List.getD_eq_getElem?_getD, List.getElem?_eq_getElem hlen, Option.getD_some]
    exact List.getElem_mem hlen
  exact (Text.contains_iff_exists_mem_split ' ' (by decide) line).mpr
    ⟨_, hmem, by rw [hlink]; decide⟩

/-- A line is counted although it is not live exactly if it is miscounted. -/
theorem isMiscounted_iff {line : String} : IsMiscounted line ↔ IsCounted line ∧ ¬ IsLive line := by
  constructor
  · rintro ⟨hline, hfail, hword, hlink⟩
    exact ⟨⟨hline, hfail, hword⟩, fun hlive => hlink hlive.2.2.2⟩
  · rintro ⟨⟨hline, hfail, hword⟩, hlive⟩
    refine ⟨hline, hfail, hword, fun hlink => hlive ⟨hline, fun h => ?_, fun h => ?_, hlink⟩⟩
    · exact hfail (hasLetters_of_mem h)
    · exact hfail ⟨"fail?", h, by decide⟩

/-- A line is live although it is not counted exactly if it is overlooked. -/
theorem isOverlooked_iff {line : String} : IsOverlooked line ↔ IsLive line ∧ ¬ IsCounted line := by
  refine and_congr_right fun hlive => ?_
  have hword := contains_of_linkState hlive.1 hlive.2.2.2
  rw [IsCounted, not_and, not_and]
  exact ⟨fun hfail _ hnot => absurd hfail hnot,
    fun h => not_not.mp fun hnot => h hlive.1 hnot hword⟩

/-- Two counts of one list differ by what only one of them counts. -/
theorem countP_add_countP {α : Type} (p q : α → Prop) [DecidablePred p] [DecidablePred q]
    (l : List α) :
    l.countP (fun a => p a) + l.countP (fun a => q a ∧ ¬ p a) =
      l.countP (fun a => q a) + l.countP (fun a => p a ∧ ¬ q a) := by
  induction l with
  | nil => rfl
  | cons a l ih =>
    simp only [List.countP_cons]
    by_cases hp : p a <;> by_cases hq : q a <;>
      simp only [decide_eq_true_eq, hp, hq, not_true_eq_false, not_false_eq_true, and_true,
        and_false, if_true, if_false] <;>
      omega

/-- **By how much the count is wrong.** -/
theorem liveNodes_add_miscounted (text : String) :
    liveNodes text + miscounted text = countActiveNodes text + overlooked text := by
  have hadd := countP_add_countP IsLive IsCounted (Text.split '\n' text)
  simp only [← isMiscounted_iff, ← isOverlooked_iff] at hadd
  rw [countActiveNodes_eq]
  exact hadd

/-! ### The replies that are read -/

section Wait

variable {σ : Type} (h : Handler RedisCmd RedisCmd.Reply σ) (m : Manager) (s : σ)
  (addr : String) (expectedNodes : ℕ)

/-- The replies of a node that is asked `n` times, up to the first error. -/
def answers : ℕ → σ → List String
  | 0, _ => []
  | n + 1, s =>
    match (h s (.clusterNodes addr)).1 with
    | .error _ => []
    | .ok text => text :: answers n (h s (.clusterNodes addr)).2

/-- The replies that are read: up to the first with the expected count. -/
def readUntil : List String → List String
  | [] => []
  | text :: texts =>
    if countActiveNodes text = expectedNodes then [text] else text :: readUntil texts

/-- **The wait ends as the replies say.** -/
theorem waitForMeetSync_eq (n : ℕ) :
    ((Session.exec h (waitForMeetSync addr expectedNodes n) m s).1.1 = .ok ⟨⟩ ↔
        ∃ text ∈ answers h addr n s, countActiveNodes text = expectedNodes) ∧
      (Session.sent h (waitForMeetSync addr expectedNodes n) m s).filterMap (shownText h) =
        readUntil expectedNodes (answers h addr n s) := by
  induction n generalizing s with
  | zero => exact ⟨by simp [waitForMeetSync, answers], rfl⟩
  | succ n ih =>
    rw [waitForMeetSync, Session.exec_bind, Session.sent_bind, ManagerM.exec_redis,
      ManagerM.sent_redis, answers]
    dsimp only
    rcases hr : (h s (.clusterNodes addr)).1 with err | text
    · rw [Session.exec_bind, Session.sent_bind, Session.sent_orFail, Session.exec_orFail_error]
      exact ⟨by simp, by simp [shownText, hr, readUntil, Except.toOption]⟩
    · have hfirst : shownText h (.clusterNodes addr, s) = some text := by
        rw [shownText, hr]
        rfl
      rw [Session.exec_bind, Session.sent_bind, Session.sent_orFail, Session.exec_orFail_ok]
      dsimp only
      rw [readUntil, List.nil_append, List.singleton_append, List.filterMap_cons_some hfirst]
      by_cases hcount : countActiveNodes text = expectedNodes
      · rw [if_pos hcount, if_pos hcount]
        exact ⟨iff_of_true rfl ⟨text, List.mem_cons_self, hcount⟩, rfl⟩
      · rw [if_neg hcount, if_neg hcount]
        obtain ⟨hok, hsent⟩ := ih (h s (.clusterNodes addr)).2
        refine ⟨hok.trans ?_, congrArg (text :: ·) hsent⟩
        rw [List.exists_mem_cons_iff, or_iff_right hcount]

/-- **The wait counts live links**: it ends without an error only if some reply that it has
read shows exactly the expected number of live links. -/
def CountsLive : Prop :=
  (Session.exec h (waitForMeetSync addr expectedNodes 10) m s).1.1 = .ok ⟨⟩ →
    ∃ x ∈ Session.sent h (waitForMeetSync addr expectedNodes 10) m s,
      ∃ text, shownText h x = some text ∧ liveNodes text = expectedNodes

/-- A reply that ends the wait has as many links that are wrongly counted as it has live ones
that are overlooked, or an earlier one shows the expected number of live links. -/
def EndsLive (texts : List String) : Prop :=
  ∀ before text after, texts = before ++ text :: after →
    (∀ t ∈ before, countActiveNodes t ≠ expectedNodes) → countActiveNodes text = expectedNodes →
    miscounted text = overlooked text ∨ ∃ t ∈ before, liveNodes t = expectedNodes

variable {expectedNodes}

theorem readUntil_append {before after : List String} {text : String}
    (hbefore : ∀ t ∈ before, countActiveNodes t ≠ expectedNodes)
    (htext : countActiveNodes text = expectedNodes) :
    readUntil expectedNodes (before ++ text :: after) = before ++ [text] := by
  induction before with
  | nil => rw [List.nil_append, readUntil, if_pos htext, List.nil_append]
  | cons t before ih =>
    rw [List.cons_append, readUntil, if_neg (hbefore t List.mem_cons_self),
      ih fun t' ht' => hbefore t' (List.mem_cons_of_mem _ ht'), List.cons_append]

/-- The first text with the expected count. -/
theorem exists_first_counted {texts : List String}
    (hex : ∃ text ∈ texts, countActiveNodes text = expectedNodes) :
    ∃ before text after, texts = before ++ text :: after ∧
      (∀ t ∈ before, countActiveNodes t ≠ expectedNodes) ∧
      countActiveNodes text = expectedNodes := by
  induction texts with
  | nil =>
    obtain ⟨text, htext, -⟩ := hex
    cases htext
  | cons t texts ih =>
    by_cases ht : countActiveNodes t = expectedNodes
    · exact ⟨[], t, texts, rfl, by simp, ht⟩
    · rw [List.exists_mem_cons_iff, or_iff_right ht] at hex
      obtain ⟨before, text, after, rfl, hbefore, htext⟩ := ih hex
      refine ⟨t :: before, text, after, rfl, fun t' ht' => ?_, htext⟩
      rcases List.mem_cons.mp ht' with rfl | ht'
      · exact ht
      · exact hbefore t' ht'

theorem liveNodes_eq_iff {text : String} (htext : countActiveNodes text = expectedNodes) :
    liveNodes text = expectedNodes ↔ miscounted text = overlooked text := by
  have hadd := liveNodes_add_miscounted text
  omega

/-- What has been read shows the expected number exactly if the replies end the wait on it. -/
theorem endsLive_iff (texts : List String) :
    EndsLive expectedNodes texts ↔
      ((∃ text ∈ texts, countActiveNodes text = expectedNodes) →
        ∃ text ∈ readUntil expectedNodes texts, liveNodes text = expectedNodes) := by
  constructor
  · intro hends hex
    obtain ⟨before, text, after, rfl, hbefore, htext⟩ := exists_first_counted hex
    rw [readUntil_append hbefore htext]
    rcases hends before text after rfl hbefore htext with heq | ⟨t, ht, hlive⟩
    · exact ⟨text, List.mem_append_right _ List.mem_cons_self, (liveNodes_eq_iff htext).mpr heq⟩
    · exact ⟨t, List.mem_append_left _ ht, hlive⟩
  · rintro hread before text after rfl hbefore htext
    obtain ⟨t, ht, hlive⟩ := hread ⟨text, by simp, htext⟩
    rw [readUntil_append hbefore htext, List.mem_append, List.mem_singleton] at ht
    rcases ht with ht | rfl
    · exact Or.inr ⟨t, ht, hlive⟩
    · exact Or.inl ((liveNodes_eq_iff htext).mp hlive)

variable (expectedNodes)

/-- **When the wait counts live links.** -/
theorem waitForMeetSync_sound_iff :
    CountsLive h m s addr expectedNodes ↔ EndsLive expectedNodes (answers h addr 10 s) := by
  obtain ⟨hok, hsent⟩ := waitForMeetSync_eq h m s addr expectedNodes 10
  rw [endsLive_iff, CountsLive, hok, ← hsent]
  refine imp_congr_right fun _ => ?_
  simp only [List.mem_filterMap]
  constructor
  · rintro ⟨x, hx, text, htext, hlive⟩
    exact ⟨text, ⟨x, hx, htext⟩, hlive⟩
  · rintro ⟨text, ⟨x, hx, htext⟩, hlive⟩
    exact ⟨x, hx, text, htext, hlive⟩

end Wait

/-- A node whose link is down. -/
def disconnectedText : String := "a 10.0.0.2:6379@16379 master - 0 0 1 disconnected"

/-- One node is expected, and its link is down: the wait ends at once without an error. -/
theorem not_countsLive_of_disconnected :
    ¬ CountsLive (frozenRedis disconnectedText) { nodesPerShard := 1 } () "127.0.0.1:7001" 1 := by
  intro hlive
  have hnone : liveNodes disconnectedText ≠ 1 := by decide +kernel
  obtain ⟨⟨c, _⟩, -, text, htext, hone⟩ := hlive (by decide +kernel)
  cases c with
  | clusterNodes addr =>
    obtain rfl : disconnectedText = text := Option.some.inj htext
    exact hnone hone
  | _ => cases htext

end ClusterManager
