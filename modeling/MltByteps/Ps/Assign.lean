import MltByteps.Ps.AddNode
import Mathlib.Tactic.Ring

/-! The ids that the scheduler gives to the nodes of a job do not depend on the order in which the
nodes register, and every node learns its own. -/

namespace Ps

/-! ## Ranks -/

/-- The table with the ids of its nodes, from `s` servers and `w` workers on. -/
def withRanks : ℕ → ℕ → List Node → List Node
  | _, _, [] => []
  | s, w, node :: nodes =>
    { node with id := if node.role = .server then serverRankToID s else workerRankToID w } ::
      withRanks (s + if node.role = .server then 1 else 0)
        (w + if node.role = .worker then 1 else 0) nodes

theorem address_withRanks (s w : ℕ) (nodes : List Node) :
    (withRanks s w nodes).map Node.address = nodes.map Node.address := by
  induction nodes generalizing s w with
  | nil => rfl
  | cons node nodes ih =>
    rw [withRanks, List.map_cons, List.map_cons, ih]
    rfl

theorem unassigned_withRanks {nodes : List Node} (h : ∀ n ∈ nodes, n.id = kEmpty) (s w : ℕ) :
    (withRanks s w nodes).map (fun n => { n with id := kEmpty }) = nodes := by
  induction nodes generalizing s w with
  | nil => rfl
  | cons node nodes ih =>
    rw [withRanks, List.map_cons, ih fun n hn => h n (List.mem_cons_of_mem _ hn),
      ← h node List.mem_cons_self]

theorem servers_withRanks (s w : ℕ) (nodes : List Node) :
    ((withRanks s w nodes).filter (·.role = .server)).map Node.id =
      (List.range' s (nodes.filter (·.role = .server)).length).map fun (i : ℕ) =>
        serverRankToID i := by
  induction nodes generalizing s w with
  | nil => rfl
  | cons node nodes ih =>
    rw [withRanks]
    by_cases hr : node.role = .server
    · simp [hr, ih, List.range'_succ]
    · simp [hr, ih]

theorem workers_withRanks (s w : ℕ) (nodes : List Node) :
    ((withRanks s w nodes).filter (·.role = .worker)).map Node.id =
      (List.range' w (nodes.filter (·.role = .worker)).length).map fun (i : ℕ) =>
        workerRankToID i := by
  induction nodes generalizing s w with
  | nil => rfl
  | cons node nodes ih =>
    rw [withRanks]
    by_cases hr : node.role = .worker
    · simp [hr, ih, List.range'_succ]
    · simp [hr, ih]

namespace Van

variable {po : Postoffice} {timeout : ℤ} {v : Van}

theorem assignRanks_eq {nodes : List Node} (t : ℤ) (hid : ∀ n ∈ nodes, n.id = kEmpty)
    (hnodup : (nodes.map Node.address).Nodup)
    (hnew : ∀ n ∈ nodes, v.connectedNodes n.hostIp = none) :
    ∃ connectedNodes numServers numWorkers heartbeats,
      assignRanks t nodes v =
        .ok ({ v with connectedNodes, numServers, numWorkers, heartbeats },
          withRanks v.numServers v.numWorkers nodes) := by
  induction nodes generalizing v with
  | nil => exact ⟨_, _, _, _, rfl⟩
  | cons node nodes ih =>
    obtain ⟨hfresh, hnodup⟩ := List.nodup_cons.mp hnodup
    let v' := { v with
      connectedNodes := Function.update v.connectedNodes node.hostIp (some (v.nextId node)) }
    have hrank : v.assignRank t node =
        .ok ((v'.updateHeartbeat (v.nextId node) t).countRole node,
          { node with id := v.nextId node }) := by
      unfold assignRank
      rw [hnew node List.mem_cons_self]
      exact require_bind _ (hid node List.mem_cons_self)
    have hnew' : ∀ n ∈ nodes, v'.connectedNodes n.hostIp = none := by
      intro n hn
      have hne : n.hostIp ≠ node.hostIp := fun he =>
        hfresh (List.mem_map.mpr ⟨n, hn, Node.hostIp_eq_iff.mp he⟩)
      exact (Function.update_of_ne hne _ _).trans (hnew n (List.mem_cons_of_mem _ hn))
    obtain ⟨c, s, w, h, hrest⟩ := ih (v := (v'.updateHeartbeat (v.nextId node) t).countRole node)
      (fun n hn => hid n (List.mem_cons_of_mem _ hn)) hnodup hnew'
    refine ⟨c, s, w, h, ?_⟩
    rw [assignRanks, hrank, ok_bind]
    dsimp only
    rw [hrest, ok_bind]
    rfl

/-! ## Registrations -/

structure Collecting (v : Van) (nodes : List Node) : Prop where
  isScheduler : v.isScheduler = true
  ready : v.ready = false
  connectedNodes : v.connectedNodes = fun _ => none
  sharedNodeMapping : v.sharedNodeMapping = fun _ => none
  numServers : v.numServers = 0
  numWorkers : v.numWorkers = 0
  nodes : v.nodes = nodes
  recoveryNodes : v.recoveryNodes = []

theorem updateMyNode_eq (v : Van) (node : Node) :
    ∃ myNode rank, v.updateMyNode node = { v with myNode, rank } := by
  unfold updateMyNode
  split_ifs
  · exact ⟨_, _, rfl⟩
  · exact ⟨_, _, rfl⟩

theorem processAddNodeCommand_eq {clock : Clock} {msg : Meta} {dead : List ℤ} {v₁ : Van}
    {nodes : List Node} (hdead : v.getDeadNodes po timeout clock.dead = .ok dead)
    (hassign : v.assignId po dead msg = .ok (v₁, nodes)) :
    v.processAddNodeCommand po timeout clock msg =
      if (nodes.foldl updateMyNode v₁).isScheduler then
        (nodes.foldl updateMyNode v₁).processAddNodeCommandAtScheduler po timeout clock
      else
        .ok ({ nodes.foldl connectNode (nodes.foldl updateMyNode v₁) with ready := true }, []) := by
  unfold processAddNodeCommand updateLocalID
  rw [hdead, ok_bind, hassign]
  rfl

variable (timeout)

theorem Collecting.processAddNodeCommand {nodes : List Node} (h : v.Collecting nodes)
    (clock : Clock) (node : Node) (hlt : nodes.length < po.numServers + po.numWorkers) :
    ∃ v₁ : Van, v₁.Collecting (nodes ++ [node]) ∧
      v.processAddNodeCommand po timeout clock (registration node) =
        v₁.processAddNodeCommandAtScheduler po timeout clock := by
  obtain ⟨myNode, rank, hmy⟩ := updateMyNode_eq { v with nodes := v.nodes ++ [node] } node
  refine ⟨{ v with nodes := v.nodes ++ [node], myNode, rank }, ?_, ?_⟩
  · exact ⟨h.isScheduler, h.ready, h.connectedNodes, h.sharedNodeMapping, h.numServers,
      h.numWorkers, congrArg (· ++ [node]) h.nodes, h.recoveryNodes⟩
  · have hdead : v.getDeadNodes po timeout clock.dead = .ok [] := if_pos (.inl h.ready)
    have hassign : v.assignId po [] (registration node) =
        .ok ({ v with nodes := v.nodes ++ [node] }, [node]) := by
      unfold assignId registration
      rw [if_pos rfl, require_bind _ h.isScheduler]
      dsimp only
      rw [if_pos (h.nodes ▸ hlt)]
      rfl
    rw [processAddNodeCommand_eq hdead hassign, List.foldl_cons, List.foldl_nil, hmy]
    exact if_pos h.isScheduler

theorem Collecting.processAtScheduler_of_lt {nodes : List Node} (h : v.Collecting nodes)
    (clock : Clock) (hlt : nodes.length < po.numServers + po.numWorkers) :
    v.processAddNodeCommandAtScheduler po timeout clock = .ok (v, []) := by
  unfold processAddNodeCommandAtScheduler
  rw [if_neg (by rw [h.nodes]; omega), h.recoveryNodes]

theorem Collecting.processAtScheduler_of_eq {nodes : List Node} (h : v.Collecting nodes)
    (clock : Clock) (hlen : nodes.length = po.numServers + po.numWorkers)
    (hpos : 0 < nodes.length) (hid : ∀ n ∈ nodes, n.id = kEmpty)
    (hnodup : (nodes.map Node.address).Nodup) :
    ∃ (v' : Van) (out : List Meta),
      v.processAddNodeCommandAtScheduler po timeout clock = .ok (v', out) ∧
      v'.nodes = withRanks 0 0 (sortNodes nodes) ++ [v'.myNode] ∧
      (v'.isScheduler = true ∧ v'.ready = true ∧ v'.recoveryNodes = []) ∧
      out.map Meta.recver = po.members (kWorkerGroup + kServerGroup) ∧
      ∀ m ∈ out, m = addNodeMeta v'.nodes m.recver m.timestamp := by
  have hperm := sortNodes_perm nodes
  obtain ⟨c, ns, nw, hb, hranks⟩ := assignRanks_eq (v := v) clock.process
    (fun n hn => hid n (hperm.mem_iff.mp hn)) ((hperm.map _).nodup_iff.mpr hnodup)
    fun n _ => congrFun h.connectedNodes n.hostIp
  have hids := po.getNodeIDs_workers_servers (hlen ▸ hpos)
  unfold processAddNodeCommandAtScheduler
  rw [if_pos (by rw [h.nodes, hlen]), h.nodes, hranks, ok_bind]
  dsimp only
  rw [hids, ok_bind, h.numServers, h.numWorkers, h.sharedNodeMapping]
  refine ⟨_, _, rfl, rfl, ⟨h.isScheduler, rfl, h.recoveryNodes⟩, ?_, fun m hm => ?_⟩
  · have hall : (po.members (kWorkerGroup + kServerGroup)).filter
        (fun r => ((fun _ => none : ℤ → Option ℤ) r).isNone) = _ :=
      List.filter_eq_self.mpr fun _ _ => rfl
    rw [List.map_map, hall]
    exact List.zipIdx_map_fst 0 _
  · obtain ⟨r, -, rfl⟩ := List.mem_map.mp hm
    rfl

theorem Collecting.registerAll {nodes : List Node} (h : v.Collecting nodes)
    {arrivals : List (Clock × Node)} (hne : arrivals ≠ [])
    (hlen : (nodes ++ arrivals.map Prod.snd).length = po.numServers + po.numWorkers)
    (hid : ∀ n ∈ nodes ++ arrivals.map Prod.snd, n.id = kEmpty)
    (hnodup : ((nodes ++ arrivals.map Prod.snd).map Node.address).Nodup) :
    ∃ (v' : Van) (out : List Meta), registerAll po timeout arrivals v = .ok (v', out) ∧
      v'.nodes = withRanks 0 0 (sortNodes (nodes ++ arrivals.map Prod.snd)) ++ [v'.myNode] ∧
      (v'.isScheduler = true ∧ v'.ready = true ∧ v'.recoveryNodes = []) ∧
      out.map Meta.recver = po.members (kWorkerGroup + kServerGroup) ∧
      ∀ m ∈ out, m = addNodeMeta v'.nodes m.recver m.timestamp := by
  induction arrivals generalizing v nodes with
  | nil => exact absurd rfl hne
  | cons a arrivals ih =>
    have hsplit : nodes ++ (a :: arrivals).map Prod.snd =
        nodes ++ [a.2] ++ arrivals.map Prod.snd := by simp
    rw [hsplit] at hlen hid hnodup ⊢
    have hlt : nodes.length < po.numServers + po.numWorkers := by
      simp at hlen
      omega
    obtain ⟨v₁, h₁, hstep⟩ := h.processAddNodeCommand timeout a.1 a.2 hlt
    rw [Van.registerAll, hstep]
    cases arrivals with
    | nil =>
      rw [List.map_nil, List.append_nil] at hlen hid hnodup ⊢
      obtain ⟨v', out, hrun, hres⟩ := h₁.processAtScheduler_of_eq timeout a.1 hlen (by simp)
        hid hnodup
      refine ⟨v', out, ?_, hres⟩
      rw [hrun, ok_bind]
      change Except.ok (v', out ++ []) = _
      rw [List.append_nil]
    | cons b arrivals =>
      rw [h₁.processAtScheduler_of_lt timeout a.1 (by simp at hlen ⊢; omega), ok_bind]
      obtain ⟨v', out, hrun, hres⟩ := ih h₁ (List.cons_ne_nil _ _) hlen hid hnodup
      refine ⟨v', out, ?_, hres⟩
      dsimp only
      rw [hrun, ok_bind]
      rfl

variable {timeout}

/-! ## The other nodes -/

theorem myNode_foldl_connectNode (v : Van) (nodes : List Node) :
    (nodes.foldl connectNode v).myNode = v.myNode := by
  induction nodes generalizing v with
  | nil => rfl
  | cons node nodes ih => exact (ih _).trans rfl

theorem foldl_updateMyNode_of_ne {nodes : List Node}
    (h : ∀ n ∈ nodes, v.myNode.address ≠ n.address) : nodes.foldl updateMyNode v = v := by
  induction nodes with
  | nil => rfl
  | cons node nodes ih =>
    have hnode : v.updateMyNode node = v :=
      if_neg fun hc => h node List.mem_cons_self (Prod.ext hc.1.1 hc.1.2)
    rw [List.foldl_cons, hnode]
    exact ih fun n hn => h n (List.mem_cons_of_mem _ hn)

/-- A node without an id finds its entry in the table, and keeps it if the scheduler, whose entry is
the last, has the same address. -/
theorem myNode_foldl_updateMyNode {table : List Node} {n sched : Node}
    (hnodup : (table.map Node.address).Nodup) (hn : n ∈ table)
    (hv : v.myNode.address = n.address) (hid : v.myNode.id = kEmpty)
    (hsched : n.id ≠ kEmpty ∨ sched.address ≠ n.address) :
    ((table ++ [sched]).foldl updateMyNode v).myNode = n := by
  obtain ⟨l₁, l₂, rfl⟩ := List.append_of_mem hn
  rw [List.map_append, List.map_cons, List.nodup_append] at hnodup
  obtain ⟨-, hnodup₂, hdisj⟩ := hnodup
  have h₁ : ∀ m ∈ l₁, v.myNode.address ≠ m.address := fun m hm he =>
    hdisj _ (List.mem_map_of_mem hm) _ List.mem_cons_self (he.symm.trans hv)
  have h₂ : ∀ m ∈ l₂, n.address ≠ m.address := fun m hm he =>
    (List.nodup_cons.mp hnodup₂).1 (he ▸ List.mem_map_of_mem hm)
  have hfound : v.updateMyNode n = { v with myNode := n, rank := some (idToRank n.id) } :=
    if_pos ⟨Prod.mk.injEq .. ▸ hv, .inr hid⟩
  have hrest : (n :: l₂).foldl updateMyNode v =
      { v with myNode := n, rank := some (idToRank n.id) } := by
    rw [List.foldl_cons, hfound]
    exact foldl_updateMyNode_of_ne h₂
  rw [List.foldl_append, List.foldl_append, foldl_updateMyNode_of_ne h₁, hrest]
  change (updateMyNode _ sched).myNode = n
  unfold updateMyNode
  rw [if_neg]
  rintro ⟨⟨hhost, hport⟩, hnone | hempty⟩
  · exact nomatch hnone
  · rcases hsched with hsched | hsched
    · exact hsched hempty
    · exact hsched (Prod.ext hhost.symm hport.symm)

theorem isScheduler_foldl_updateMyNode (v : Van) (nodes : List Node) :
    (nodes.foldl updateMyNode v).isScheduler = v.isScheduler := by
  induction nodes generalizing v with
  | nil => rfl
  | cons node nodes ih =>
    obtain ⟨_, _, h⟩ := updateMyNode_eq v node
    rw [List.foldl_cons, ih, h]

theorem processAddNodeCommand_node (po : Postoffice) (timeout : ℤ) {m : Meta} (clock : Clock)
    (hnode : v.isScheduler = false) (hsender : m.sender ≠ kEmpty) :
    ∃ v', v.processAddNodeCommand po timeout clock m = .ok (v', []) ∧
      v'.myNode = (m.control.node.foldl updateMyNode v).myNode := by
  have hdead : ∃ dead, v.getDeadNodes po timeout clock.dead = .ok dead := by
    have hids : po.getNodeIDs kScheduler = .ok [kScheduler] := by
      unfold Postoffice.getNodeIDs
      rw [po.members_eq (by decide) (by decide), if_neg (by decide), if_neg (by decide),
        if_pos (by decide)]
      rfl
    unfold getDeadNodes
    rw [hnode, if_neg Bool.false_ne_true, hids]
    split_ifs
    · exact ⟨_, rfl⟩
    · exact ⟨_, rfl⟩
  obtain ⟨dead, hdead⟩ := hdead
  have hassign : v.assignId po dead m = .ok (v, m.control.node) := if_neg hsender
  rw [processAddNodeCommand_eq hdead hassign, isScheduler_foldl_updateMyNode, hnode,
    if_neg Bool.false_ne_true]
  exact ⟨_, rfl, myNode_foldl_connectNode _ _⟩

end Van

/-! ## All together -/

structure Registrations (po : Postoffice) (regs : List Node) : Prop where
  ids : ∀ n ∈ regs, n.id = kEmpty
  length : regs.length = po.numServers + po.numWorkers
  servers : (regs.filter (·.role = .server)).length = po.numServers
  workers : (regs.filter (·.role = .worker)).length = po.numWorkers
  addresses : (regs.map Node.address).Nodup

structure Assigned (po : Postoffice) (regs table : List Node) : Prop where
  nodes : (table.map fun n => { n with id := kEmpty }).Perm regs
  servers : (table.filter (·.role = .server)).map Node.id = po.servers
  workers : (table.filter (·.role = .worker)).map Node.id = po.workers

def Postoffice.groupSize (po : Postoffice) : Role → ℕ
  | .server => po.numServers
  | .worker => po.numWorkers
  | .scheduler => 1

theorem Registrations.assigned {po : Postoffice} {regs : List Node} (h : Registrations po regs) :
    Assigned po regs (withRanks 0 0 (sortNodes regs)) where
  nodes := by
    rw [unassigned_withRanks fun n hn => h.ids n ((sortNodes_perm regs).mem_iff.mp hn)]
    exact sortNodes_perm regs
  servers := by
    rw [servers_withRanks, ((sortNodes_perm regs).filter _).length_eq, h.servers,
      ← List.range_eq_range']
    rfl
  workers := by
    rw [workers_withRanks, ((sortNodes_perm regs).filter _).length_eq, h.workers,
      ← List.range_eq_range']
    rfl

theorem length_filter_role (l : List Node) :
    (l.filter (·.role = .server)).length + (l.filter (·.role = .worker)).length +
      (l.filter (·.role = .scheduler)).length = l.length := by
  induction l with
  | nil => rfl
  | cons n l ih =>
    rcases hr : n.role with _ | _ | _ <;>
      (simp only [List.filter_cons, hr, List.length_cons]; simp; omega)

theorem Registrations.role_ne_scheduler {po : Postoffice} {regs : List Node}
    (h : Registrations po regs) : ∀ n ∈ regs, n.role ≠ .scheduler := by
  intro n hn hr
  have hlen := length_filter_role regs
  rw [h.servers, h.workers, h.length] at hlen
  have hmem : n ∈ regs.filter (·.role = .scheduler) :=
    List.mem_filter.mpr ⟨hn, decide_eq_true hr⟩
  have hpos := List.length_pos_of_mem hmem
  omega

theorem Assigned.idToRank_lt {po : Postoffice} {regs table : List Node}
    (h : Assigned po regs table) (hrole : ∀ n ∈ regs, n.role ≠ .scheduler) {n : Node}
    (hn : n ∈ table) : idToRank n.id < po.groupSize n.role := by
  rcases hr : n.role with _ | _ | _
  · have hmem : n.id ∈ po.servers := by
      rw [← h.servers]
      exact List.mem_map_of_mem (List.mem_filter.mpr ⟨hn, by simp [hr]⟩)
    obtain ⟨i, hi, hid⟩ := po.mem_servers.mp hmem
    rw [hid, idToRank_serverRankToID]
    exact Int.ofNat_lt.mpr hi
  · have hmem : n.id ∈ po.workers := by
      rw [← h.workers]
      exact List.mem_map_of_mem (List.mem_filter.mpr ⟨hn, by simp [hr]⟩)
    obtain ⟨i, hi, hid⟩ := po.mem_workers.mp hmem
    rw [hid, idToRank_workerRankToID]
    exact Int.ofNat_lt.mpr hi
  · have hreg := h.nodes.mem_iff.mp (List.mem_map_of_mem hn)
    exact (hrole _ hreg hr).elim

/-- The table that the scheduler sends out is the same for all orders in which the nodes register,
and every node finds itself in it. -/
theorem registrations_assigned (po : Postoffice) (timeout : ℤ) {regs : List Node}
    (h : Registrations po regs) (hne : regs ≠ []) :
    StrictTotal nodeBefore ∧ ∃ table, Assigned po regs table ∧
      ∀ (v : Van) (arrivals : List (Clock × Node)), v.Collecting [] →
        (arrivals.map Prod.snd).Perm regs →
        ∃ v' out, v.registerAll po timeout arrivals = .ok (v', out) ∧
          v'.nodes = table ++ [v'.myNode] ∧
          out.map Meta.recver = po.members (kWorkerGroup + kServerGroup) ∧
          (∀ m ∈ out, m = Van.addNodeMeta v'.nodes m.recver m.timestamp) ∧
          ∀ m ∈ out, ∀ n ∈ table, ∀ (u : Van) (clock : Clock), u.isScheduler = false →
            u.myNode.address = n.address → u.myNode.id = kEmpty →
            n.id ≠ kEmpty ∨ v'.myNode.address ≠ n.address →
            ∃ u', u.processAddNodeCommand po timeout clock (m.from kScheduler) = .ok (u', []) ∧
              u'.myNode = n ∧ idToRank n.id < po.groupSize n.role := by
  refine ⟨nodeBefore_strictTotal, _, h.assigned, fun v arrivals hv hperm => ?_⟩
  have hsort := sortNodes_eq_of_perm hperm.symm h.addresses
  obtain ⟨v', out, hrun, hnodes, -, hrecver, hout⟩ := hv.registerAll timeout
    (by rintro rfl; exact hne hperm.nil_eq.symm) (hperm.length_eq.trans h.length)
    (fun n hn => h.ids n (hperm.mem_iff.mp hn))
    ((hperm.map _).nodup_iff.mpr h.addresses)
  rw [List.nil_append, ← hsort] at hnodes
  refine ⟨v', out, hrun, hnodes, hrecver, hout, ?_⟩
  intro m hm n hn u clock hu haddr hid hsched
  obtain ⟨u', hu', hmy⟩ := Van.processAddNodeCommand_node po timeout (m := m.from kScheduler) clock
    hu (show kScheduler ≠ kEmpty by decide)
  have hnodup : ((withRanks 0 0 (sortNodes regs)).map Node.address).Nodup := by
    rw [address_withRanks]
    exact ((sortNodes_perm regs).map _).nodup_iff.mpr h.addresses
  have hmeta : (m.from kScheduler).control.node =
      withRanks 0 0 (sortNodes regs) ++ [v'.myNode] := by
    rw [hout m hm, ← hnodes]
    rfl
  refine ⟨u', hu', ?_, h.assigned.idToRank_lt h.role_ne_scheduler hn⟩
  rw [hmy, hmeta]
  exact Van.myNode_foldl_updateMyNode hnodup hn haddr hid hsched

def threeNodes : List Node :=
  [{ role := .worker, hostname := [50], port := 7 },
    { role := .server, hostname := [49], port := 6 },
    { role := .worker, hostname := [49], port := 5 }]

def freshScheduler : Van where
  isScheduler := true
  myNode := { role := .scheduler, id := kScheduler, hostname := [51], port := 1 }
  ready := false
  connectedNodes _ := none
  sharedNodeMapping _ := none
  numServers := 0
  numWorkers := 0
  timestamp := 0
  heartbeats _ := none
  startTime := 0
  rank := none
  nodes := []
  recoveryNodes := []

theorem registrations_assigned_threeNodes :
    Registrations ⟨2, 1⟩ threeNodes ∧ ∃ table, Assigned ⟨2, 1⟩ threeNodes table ∧
      ∃ v' out, freshScheduler.registerAll ⟨2, 1⟩ 0 (threeNodes.map fun n => (⟨0, 0, 0⟩, n)) =
        .ok (v', out) ∧ v'.nodes = table ++ [v'.myNode] := by
  have h : Registrations ⟨2, 1⟩ threeNodes :=
    ⟨by decide, by decide, by decide, by decide, by decide⟩
  obtain ⟨-, table, htable, hrun⟩ := registrations_assigned ⟨2, 1⟩ 0 h (by decide)
  obtain ⟨v', out, hout, hnodes, -⟩ := hrun freshScheduler
    (threeNodes.map fun n => (⟨0, 0, 0⟩, n)) ⟨rfl, rfl, rfl, rfl, rfl, rfl, rfl, rfl⟩
    (List.Perm.refl _)
  exact ⟨h, table, htable, v', out, hout, hnodes⟩

end Ps
