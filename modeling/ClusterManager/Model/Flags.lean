import ClusterManager.Data.Format
import ClusterManager.Model.Nodes

/-!
# The flags of a node

Redis flags a node by a list of words: `master` or `slave` for its role, `fail` when the
cluster agrees that it is down, `fail?` when only the node that answers thinks so,
`nofailover`, `handshake` and some more. The parser looks for letters instead of words: a
node with `fail` anywhere in its flags counts as failing, and a node is a replica unless
its flags have `master` in them.

The two readings agree on `fail`, `master` and `slave`, and disagree on all flags that
are longer than they look. `readsFlags_iff` says for which texts this does not matter.
What counts as failing is forgotten, so a node that is only suspected, or that has been
told not to fail over, is thrown out of the cluster by the next look at it.
-/

namespace ClusterManager

/-! ### Words and letters -/

/-- Some flag of the line has these letters in it. -/
def HasLetters (line letters : String) : Prop :=
  ∃ flag ∈ lineFlags line, Text.contains flag letters

instance (line letters : String) : Decidable (HasLetters line letters) :=
  inferInstanceAs (Decidable (∃ _ ∈ _, _))

theorem hasLetters_fail (line : String) :
    HasLetters line "fail" ↔ Text.contains (lineField line 2) "fail" :=
  (Text.contains_iff_exists_mem_split ',' (by decide) _).symm

theorem hasLetters_master (line : String) :
    HasLetters line "master" ↔ Text.contains (lineField line 2) "master" :=
  (Text.contains_iff_exists_mem_split ',' (by decide) _).symm

/-- The line of a node that is flagged `fail`. -/
def FlaggedFailing (lines : List String) (id : String) : Prop :=
  ∃ line ∈ lines, IsNodeLine line ∧ lineField line 0 = id ∧ "fail" ∈ lineFlags line

/-! ### What is forgotten -/

section Forgotten

variable {σ : Type} {h : Handler RedisCmd RedisCmd.Reply σ} {m : Manager} {s : σ}

theorem map_fst_sent_forM_clusterForget (addr : String) (ids : List String) :
    (Session.sent h (forM ids fun id => do
        let _ ← ManagerM.redis (.clusterForget addr id)
        return ⟨⟩ : ManagerM PUnit) m s).map Prod.fst = ids.map (.clusterForget addr) := by
  induction ids generalizing s with
  | nil => rfl
  | cons id ids ih =>
    rw [List.forM_cons, Session.sent_bind_of_ok (exec_clusterForget addr id), List.map_append, ih]
    rfl

theorem map_fst_sent_forgetFailedClusterNodes {clusterName : String} {node : RuntimeNode}
    (hnode : m.nodeManager.nodes.find? (·.clusterName = clusterName) = some node)
    (ids : List String) :
    (Session.sent h (forgetFailedClusterNodes clusterName ids) m s).map Prod.fst =
      ids.map (.clusterForget node.clientConnAddr) := by
  rw [forgetFailedClusterNodes, Session.sent_bind, Session.exec_get, Session.sent_get,
    List.nil_append]
  dsimp only
  rw [hnode]
  exact map_fst_sent_forM_clusterForget _ ids

/-- Which nodes count as failing does not depend on the filter. -/
theorem parseClusterNodeLines_snd_eq (lines : List String) (f g : String → Bool) :
    (parseClusterNodeLines lines f).2 = (parseClusterNodeLines lines g).2 := by
  rw [parseClusterNodeLines_snd, parseClusterNodeLines_snd]
  refine List.filterMap_congr fun line _ => ?_
  rw [failed?_parseClusterNodeLine, failed?_parseClusterNodeLine]

/-- **The nodes that count as failing are forgotten**, and no others. -/
theorem map_fst_sent_parseRedisClusterNodes {text clusterName : String} {node : RuntimeNode}
    (hnode : m.nodeManager.nodes.find? (·.clusterName = clusterName) = some node)
    (clusterFilter : String → Bool) :
    (Session.sent h (parseRedisClusterNodes text clusterName) m s).map Prod.fst =
      (parseClusterNodeLines (Text.split '\n' text) clusterFilter).2.map
        (.clusterForget node.clientConnAddr) := by
  rw [parseRedisClusterNodes, Session.sent_bind, Session.exec_get, Session.sent_get,
    List.nil_append]
  dsimp only
  rw [parseClusterNodeLines_snd_eq _ clusterFilter fun ip =>
    ((m.nodeManager.getNodeByHost ip).map fun node => decide (node.clusterName = clusterName)).getD
      false]
  generalize parseClusterNodeLines (Text.split '\n' text) (fun ip =>
    ((m.nodeManager.getNodeByHost ip).map fun node => decide (node.clusterName = clusterName)).getD
      false) = parsed
  by_cases hids : parsed.2 = []
  · rw [if_neg (not_not.mpr hids), hids]
    rfl
  · rw [if_pos hids, Session.sent_bind, List.map_append,
      map_fst_sent_forgetFailedClusterNodes hnode]
    refine (congrArg (_ ++ ·) ?_).trans (List.append_nil _)
    rcases Session.exec h (forgetFailedClusterNodes clusterName parsed.2) m s with
      ⟨⟨e | a, m'⟩, s'⟩ <;> rfl

end Forgotten

/-! ### Reading flags -/

/-- **The flags are read as Redis means them**: the nodes that are returned as failing, and
those that are forgotten, are the ones that are flagged `fail`, and a node is returned with
the role that it is flagged with. -/
structure ReadsFlags {σ : Type} (h : Handler RedisCmd RedisCmd.Reply σ) (m : Manager) (s : σ)
    (clusterName : String) (clusterFilter : String → Bool) (text : String) : Prop where
  failed : ∀ id, id ∈ (parseClusterNodeLines (Text.split '\n' text) clusterFilter).2 ↔
    FlaggedFailing (Text.split '\n' text) id
  forgotten : ∀ node, m.nodeManager.nodes.find? (·.clusterName = clusterName) = some node →
    ∀ id, .clusterForget node.clientConnAddr id ∈
        (Session.sent h (parseRedisClusterNodes text clusterName) m s).map Prod.fst ↔
      FlaggedFailing (Text.split '\n' text) id
  master : ∀ line ∈ Text.split '\n' text, ∀ n, parseClusterNodeLine clusterFilter line = .node n →
    (n.nodeType = .master ↔ "master" ∈ lineFlags line)
  slave : ∀ line ∈ Text.split '\n' text, ∀ n, parseClusterNodeLine clusterFilter line = .node n →
    (n.nodeType = .slave ↔ "slave" ∈ lineFlags line)

/-- The flags mean what their letters say: a node with `fail` in its flags is flagged `fail`,
and a line that can be read has `master` in its flags if it is flagged `master`, and otherwise
is flagged `slave`. -/
structure PlainFlags (clusterFilter : String → Bool) (lines : List String) : Prop where
  failing : ∀ line ∈ lines, IsNodeLine line → HasLetters line "fail" →
    FlaggedFailing lines (lineField line 0)
  master : ∀ line ∈ lines, IsNodeLine line → ¬ HasLetters line "fail" →
    (readNode clusterFilter line).isSome → HasLetters line "master" → "master" ∈ lineFlags line
  slave : ∀ line ∈ lines, IsNodeLine line → ¬ HasLetters line "fail" →
    (readNode clusterFilter line).isSome → (HasLetters line "master" ↔ "slave" ∉ lineFlags line)

section Reads

variable {clusterFilter : String → Bool} {line : String} {lines : List String}

theorem parseClusterNodeLine_eq_node {n : ClusterNode} :
    parseClusterNodeLine clusterFilter line = .node n ↔
      IsNodeLine line ∧ ¬ HasLetters line "fail" ∧ readNode clusterFilter line = some n := by
  have hnode : parseClusterNodeLine clusterFilter line = .node n ↔
      (parseClusterNodeLine clusterFilter line).node? = some n := by
    cases parseClusterNodeLine clusterFilter line <;> simp [ParsedLine.node?]
  rw [hnode, node?_parseClusterNodeLine, hasLetters_fail, ite_eq_iff]
  simp [and_assoc]

theorem mem_parseClusterNodeLines_snd {id : String} :
    id ∈ (parseClusterNodeLines lines clusterFilter).2 ↔
      ∃ line ∈ lines, IsNodeLine line ∧ lineField line 0 = id ∧ HasLetters line "fail" := by
  rw [parseClusterNodeLines_snd, List.mem_filterMap]
  refine exists_congr fun line => and_congr_right fun _ => ?_
  rw [failed?_parseClusterNodeLine, hasLetters_fail, ite_eq_iff]
  simp [and_left_comm, and_comm]

theorem nodeType_of_readNode {n : ClusterNode} (h : readNode clusterFilter line = some n) :
    n.nodeType = parseNodeType (lineField line 2) := by
  obtain ⟨address, -, h⟩ := Option.bind_eq_some_iff.mp h
  obtain ⟨slots, -, rfl⟩ := Option.map_eq_some_iff.mp h
  rfl

theorem parseNodeType_eq_master :
    parseNodeType (lineField line 2) = .master ↔ HasLetters line "master" := by
  rw [parseNodeType, hasLetters_master, ite_eq_left_iff]
  simp

theorem parseNodeType_eq_slave :
    parseNodeType (lineField line 2) = .slave ↔ ¬ HasLetters line "master" := by
  rw [parseNodeType, hasLetters_master, ite_eq_right_iff]
  simp

/-- A flag has its own letters. -/
theorem hasLetters_of_mem {flag : String} (h : flag ∈ lineFlags line) : HasLetters line flag :=
  ⟨flag, h, decide_eq_true List.infix_rfl⟩

end Reads

/-- **When flags are read as Redis means them.** -/
theorem readsFlags_iff {σ : Type} (h : Handler RedisCmd RedisCmd.Reply σ) (m : Manager) (s : σ)
    (clusterName : String) (clusterFilter : String → Bool) (text : String) :
    ReadsFlags h m s clusterName clusterFilter text ↔
      PlainFlags clusterFilter (Text.split '\n' text) := by
  constructor
  · intro hreads
    refine ⟨fun line hline hnode hfail => ?_, fun line hline hnode hfail hread hmaster => ?_,
      fun line hline hnode hfail hread => ?_⟩
    · exact (hreads.failed _).mp
        (mem_parseClusterNodeLines_snd.mpr ⟨line, hline, hnode, rfl, hfail⟩)
    · obtain ⟨n, hn⟩ := Option.isSome_iff_exists.mp hread
      refine (hreads.master line hline n
        (parseClusterNodeLine_eq_node.mpr ⟨hnode, hfail, hn⟩)).mp ?_
      rw [nodeType_of_readNode hn]
      exact parseNodeType_eq_master.mpr hmaster
    · obtain ⟨n, hn⟩ := Option.isSome_iff_exists.mp hread
      have hslave := hreads.slave line hline n
        (parseClusterNodeLine_eq_node.mpr ⟨hnode, hfail, hn⟩)
      rw [nodeType_of_readNode hn, parseNodeType_eq_slave] at hslave
      exact not_iff_not.mp (hslave.trans not_not.symm)
  · intro hplain
    have hfailed : ∀ id, id ∈ (parseClusterNodeLines (Text.split '\n' text) clusterFilter).2 ↔
        FlaggedFailing (Text.split '\n' text) id := by
      intro id
      rw [mem_parseClusterNodeLines_snd]
      constructor
      · rintro ⟨line, hline, hnode, rfl, hfail⟩
        exact hplain.failing line hline hnode hfail
      · rintro ⟨line, hline, hnode, hid, hflag⟩
        exact ⟨line, hline, hnode, hid, hasLetters_of_mem hflag⟩
    refine ⟨hfailed, fun node hnode id => ?_, fun line hline n hn => ?_, fun line hline n hn => ?_⟩
    · rw [map_fst_sent_parseRedisClusterNodes hnode clusterFilter, ← hfailed]
      simp
    · obtain ⟨hnode, hfail, hn⟩ := parseClusterNodeLine_eq_node.mp hn
      rw [nodeType_of_readNode hn, parseNodeType_eq_master]
      exact ⟨hplain.master line hline hnode hfail (hn ▸ rfl), hasLetters_of_mem⟩
    · obtain ⟨hnode, hfail, hn⟩ := parseClusterNodeLine_eq_node.mp hn
      rw [nodeType_of_readNode hn, parseNodeType_eq_slave,
        hplain.slave line hline hnode hfail (hn ▸ rfl), not_not]

/-- A master that is only suspected of being down. -/
def suspectedText : String := "a 10.0.0.2:6379@16379 master,fail? - 0 0 1 connected 0-16383"

/-- A node that is only suspected of being down counts as failing, and is forgotten. -/
theorem not_readsFlags_of_suspected :
    ¬ ReadsFlags (frozenRedis suspectedText) { nodesPerShard := 1 } () "s" (fun _ => true)
      suspectedText := by
  intro hreads
  have hfailed : "a" ∈ (parseClusterNodeLines (Text.split '\n' suspectedText) fun _ => true).2 := by
    decide +kernel
  obtain ⟨line, hline, -, -, hflag⟩ := (hreads.failed "a").mp hfailed
  have hnone : ∀ line ∈ Text.split '\n' suspectedText, "fail" ∉ lineFlags line := by
    decide +kernel
  exact hnone line hline hflag

end ClusterManager
