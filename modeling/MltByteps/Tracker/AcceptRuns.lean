import MltByteps.Lib.Machine
import MltByteps.Tracker.LinkSetup

/-! Runs of the loop of `accept_slaves`. -/

namespace Tracker

theorem getLinkMap_topology {order : IterationOrder} {n : ℕ} {maps : LinkMaps}
    (h : getLinkMap order n = .ok (maps.treeMap, maps.parentMap, maps.ringMap)) :
    IsTopology n maps.treeMap maps.parentMap maps.ringMap := by
  rcases Nat.eq_zero_or_pos n with rfl | hn
  · cases h
  · obtain ⟨treeMap, parentMap, ringMap⟩ := maps
    obtain ⟨⟨treeMap', parentMap', ringMap'⟩, hmaps, htop⟩ := exists_linkMaps order hn
    cases hmaps.symm.trans h
    exact htop

namespace RabitTracker

variable {order : IterationOrder} {passes : ℕ → IterationOrder} {maps : LinkMaps}
  {t t' : RabitTracker} {s : SlaveEntry} {rank : ℕ}

/-! ## Ranks that are given once -/

structure Joined (maps : LinkMaps) (t : RabitTracker) : Prop where
  maps_eq : t.maps = some maps
  topology : IsTopology t.nslave maps.treeMap maps.parentMap maps.ringMap
  setUp : t.SetUp maps
  pending : ∀ s ∈ t.pending, s.Plain
  todo_nodup : t.todoNodes.Nodup
  todo_lt : ∀ r ∈ t.todoNodes, r < t.nslave

def Inv (t : RabitTracker) : Prop :=
  (t.maps = none ∧ t.assignments = [] ∧ t.waitConn = [] ∧ t.pending = []) ∨
    ∃ maps, t.Joined maps

theorem lt_of_assign {n : ℕ} (h : IsTopology n maps.treeMap maps.parentMap maps.ringMap)
    (hok : t.assign passes maps rank s = .ok t') : rank < n := by
  obtain ⟨a, ha, -⟩ := bind_eq_ok.mp hok
  obtain ⟨tree, htree, -⟩ := bind_eq_ok.mp ha
  refine (h.tree_keys rank).mp ?_
  rcases hget : maps.treeMap.get? rank with _ | tree
  · rw [item, hget] at htree
    cases htree
  · rfl

variable (passes) in
theorem Joined.assign (h : t.Joined maps) (hrank : rank ∉ t.assigned) (hlt : rank < t.nslave)
    (hs : s.Plain) : ∃ t', t.assign passes maps rank s = .ok t' ∧ t'.Joined maps ∧
      t'.assigned = t.assigned ++ [rank] ∧ t'.hosts = t.hosts ++ [s.host] ∧
      t' = { t with waitConn := t'.waitConn, assignments := t'.assignments } := by
  obtain ⟨t', hok, hset, hassigned, hhosts, hframe⟩ :=
    h.setUp.assign h.topology passes hrank hlt hs
  refine ⟨t', hok, ⟨?_, ?_, hset, ?_, ?_, ?_⟩, hassigned, hhosts, hframe⟩ <;> rw [hframe]
  · exact h.maps_eq
  · exact h.topology
  · exact h.pending
  · exact h.todo_nodup
  · exact h.todo_lt

variable (passes) in
theorem Joined.next {todoNodes : List ℕ} (h : t.Joined maps)
    (htodo : t.todoNodes = rank :: todoNodes) (hnew : ∀ r ∈ t.todoNodes, r ∉ t.assigned)
    (hs : s.Plain) : ∃ t', assignNext passes maps t s = .ok t' ∧ t'.Joined maps ∧
      t'.nslave = t.nslave ∧ t'.shutdown = t.shutdown ∧ t'.todoNodes = todoNodes ∧
      t'.assigned = t.assigned ++ [rank] ∧ t'.hosts = t.hosts ++ [s.host] := by
  have hmem : rank ∈ t.todoNodes := htodo ▸ List.mem_cons_self
  have hrest : ∀ r ∈ todoNodes, r ∈ t.todoNodes := fun r hr => htodo ▸ List.mem_cons_of_mem _ hr
  rw [assignNext, htodo]
  dsimp only
  generalize (if s.jobid ≠ "NULL" then t.jobMap.set s.jobid rank else t.jobMap) = jobMap
  have h₀ : Joined maps { t with todoNodes, jobMap } :=
    ⟨h.maps_eq, h.topology, h.setUp.congr rfl rfl, h.pending,
      (List.nodup_cons.mp (htodo ▸ h.todo_nodup)).2, fun r hr => h.todo_lt r (hrest r hr)⟩
  obtain ⟨t', hok, h', hassigned, hhosts, hframe⟩ :=
    h₀.assign passes (hnew rank hmem) (h.todo_lt rank hmem) hs
  exact ⟨t', hok, h', by rw [hframe], by rw [hframe], by rw [hframe], hassigned, hhosts⟩

variable (passes) in
theorem Joined.assignNext {pending : List SlaveEntry} (h : t.Joined maps)
    (hnew : ∀ r ∈ t.todoNodes, r ∉ t.assigned) (hplain : ∀ s ∈ pending, s.Plain)
    (hlen : pending.length = t.todoNodes.length) :
    ∃ t', pending.foldlM (RabitTracker.assignNext passes maps) t = .ok t' ∧ t'.Joined maps ∧
      t'.nslave = t.nslave ∧ t'.shutdown = t.shutdown ∧
      t'.assigned = t.assigned ++ t.todoNodes ∧
      t'.hosts = t.hosts ++ pending.map SlaveEntry.host := by
  induction pending generalizing t with
  | nil =>
    rw [List.length_nil, eq_comm, List.length_eq_zero_iff] at hlen
    refine ⟨t, rfl, h, rfl, rfl, ?_, (List.append_nil _).symm⟩
    rw [hlen, List.append_nil]
  | cons s pending ih =>
    obtain ⟨rank, todoNodes, htodo⟩ := List.exists_cons_of_length_eq_add_one hlen.symm
    obtain ⟨t₁, hok, h₁, hnslave, hshutdown, htodo₁, hassigned, hhosts⟩ :=
      h.next passes htodo hnew (hplain s List.mem_cons_self)
    have hnodup := List.nodup_cons.mp (htodo ▸ h.todo_nodup)
    have hnew₁ : ∀ r ∈ t₁.todoNodes, r ∉ t₁.assigned := by
      intro r hr hm
      rw [htodo₁] at hr
      rw [hassigned] at hm
      rcases List.mem_append.mp hm with hm | hm
      · exact hnew r (htodo ▸ List.mem_cons_of_mem _ hr) hm
      · exact hnodup.1 (List.mem_singleton.mp hm ▸ hr)
    rw [htodo] at hlen
    obtain ⟨t', hok', h', hnslave', hshutdown', hassigned', hhosts'⟩ := ih h₁ hnew₁
      (fun s' hs' => hplain s' (List.mem_cons_of_mem _ hs'))
      (by rw [htodo₁]; exact Nat.succ.inj hlen)
    refine ⟨t', ?_, h', hnslave'.trans hnslave, hshutdown'.trans hshutdown, ?_, ?_⟩
    · rw [List.foldlM_cons, hok]
      exact hok'
    · rw [hassigned', hassigned, htodo₁, htodo, List.append_assoc]
      rfl
    · rw [hhosts', hhosts, List.append_assoc]
      rfl

theorem Inv.linkMaps (h : t.Inv) (hok : linkMaps order t s = .ok (t', maps)) :
    t'.Joined maps ∧ t'.assigned = t.assigned ∧ t'.jobMap = t.jobMap := by
  rcases h with ⟨hnone, hassign, hwait, hpending⟩ | ⟨maps', h⟩
  · rw [RabitTracker.linkMaps, hnone] at hok
    obtain ⟨-, hok⟩ := require_bind_eq_ok.mp hok
    obtain ⟨⟨treeMap, parentMap, ringMap⟩, hmaps, hok⟩ := bind_eq_ok.mp hok
    cases hok
    refine ⟨⟨rfl, @getLinkMap_topology _ _ ⟨treeMap, parentMap, ringMap⟩ hmaps,
      (SetUp.init _ 0).congr hwait hassign, ?_, List.nodup_range, fun r hr => List.mem_range.mp hr⟩,
      rfl, rfl⟩
    intro s hs
    rw [hpending] at hs
    exact absurd hs List.not_mem_nil
  · rw [RabitTracker.linkMaps, h.maps_eq] at hok
    obtain ⟨-, hok⟩ := require_bind_eq_ok.mp hok
    cases hok
    exact ⟨h, rfl, rfl⟩

/-- A slave that joins has no links, and no rank is given twice: a slave that asks for any rank
comes before the first is given. -/
def Fresh (t : RabitTracker) (s : SlaveEntry) : Prop :=
  s.cmd = .start ∨ s.cmd = .recover → s.Plain ∧
    match s.decideRank t.jobMap with
    | some rank => rank ∉ t.assigned
    | none => t.assigned = []

def byHost (pending : List SlaveEntry) : List SlaveEntry :=
  pending.mergeSort fun a b => decide (a.host ≤ b.host)

theorem pairwise_byHost (pending : List SlaveEntry) :
    (byHost pending).Pairwise fun a b => a.host ≤ b.host := by
  have h := @List.pairwise_mergeSort SlaveEntry (fun a b => decide (a.host ≤ b.host))
    (fun a b c hab hbc =>
      decide_eq_true (String.le_trans (of_decide_eq_true hab) (of_decide_eq_true hbc)))
    (fun a b => by simpa using String.le_total a.host b.host) pending
  exact h.imp of_decide_eq_true

variable (passes) in
theorem Joined.batch {pending : List SlaveEntry} (h : t.Joined maps) (hnone : t.assigned = [])
    (hplain : ∀ s ∈ pending, s.Plain) (hlen : pending.length = t.todoNodes.length) :
    ∃ t', (byHost pending).foldlM (RabitTracker.assignNext passes maps)
        { t with pending := byHost pending } = .ok t' ∧ t'.Joined maps ∧ t'.nslave = t.nslave ∧
      t'.shutdown = t.shutdown ∧ t'.assigned = t.todoNodes ∧
      t'.hosts = (byHost pending).map SlaveEntry.host := by
  have hsorted : ∀ s ∈ byHost pending, s.Plain := fun s hs => hplain s (List.mem_mergeSort.mp hs)
  have h₁ : Joined maps { t with pending := byHost pending } :=
    ⟨h.maps_eq, h.topology, h.setUp.congr rfl rfl, hsorted, h.todo_nodup, h.todo_lt⟩
  have hassigned₁ : RabitTracker.assigned { t with pending := byHost pending } = [] := hnone
  have hhosts₁ : RabitTracker.hosts { t with pending := byHost pending } = [] := by
    rw [hosts, List.map_eq_nil_iff.mp hnone]
    rfl
  obtain ⟨t', hok, h', hnslave, hshutdown, hassigned, hhosts⟩ := h₁.assignNext passes
    (fun r _ hm => List.not_mem_nil (hassigned₁ ▸ hm)) hsorted
    ((List.length_mergeSort _).trans hlen)
  rw [hassigned₁, List.nil_append] at hassigned
  rw [hhosts₁, List.nil_append] at hhosts
  exact ⟨t', hok, h', hnslave, hshutdown, hassigned, hhosts⟩

theorem Joined.keep (h : t.Joined maps) (hs : s.Plain) :
    Joined maps { t with pending := t.pending ++ [s] } := by
  refine ⟨h.maps_eq, h.topology, h.setUp.congr rfl rfl, ?_, h.todo_nodup, h.todo_lt⟩
  intro s' hs'
  rcases List.mem_append.mp hs' with hs' | hs'
  · exact h.pending s' hs'
  · exact List.mem_singleton.mp hs' ▸ hs

theorem pend_of_ne (htodo : t.todoNodes ≠ [])
    (hlen : (t.pending ++ [s]).length ≠ t.todoNodes.length) :
    pend passes maps t s = .ok { t with pending := t.pending ++ [s] } := by
  rw [pend, require_bind _ (mt List.length_eq_zero_iff.mp htodo)]
  exact if_neg hlen

theorem pend_of_eq (hlen : (t.pending ++ [s]).length = t.todoNodes.length) :
    pend passes maps t s = (byHost (t.pending ++ [s])).foldlM (assignNext passes maps)
      { t with pending := byHost (t.pending ++ [s]) } := by
  have htodo : t.todoNodes.length ≠ 0 := by
    rw [← hlen, List.length_append]
    exact Nat.succ_ne_zero _
  rw [pend, require_bind _ htodo]
  exact if_pos hlen

theorem Joined.pend (h : t.Joined maps) (hs : s.Plain) (hnone : t.assigned = [])
    (hok : pend passes maps t s = .ok t') : t'.Joined maps := by
  obtain ⟨htodo, -⟩ := require_bind_eq_ok.mp hok
  by_cases hlen : (t.pending ++ [s]).length = t.todoNodes.length
  · rw [pend_of_eq hlen] at hok
    obtain ⟨t₁, hok₁, h₁, -⟩ := h.batch passes hnone (h.keep hs).pending hlen
    cases hok₁.symm.trans hok
    exact h₁
  · rw [pend_of_ne (mt List.length_eq_zero_iff.mpr htodo) hlen] at hok
    cases hok
    exact h.keep hs

theorem Inv.join (h : t.Inv) (hcmd : s.cmd = .start ∨ s.cmd = .recover) (hfresh : t.Fresh s)
    (hok : join order passes t s = .ok t') : t'.Inv := by
  obtain ⟨hplain, hfresh⟩ := hfresh hcmd
  obtain ⟨⟨t₁, maps⟩, hmaps, hok⟩ := bind_eq_ok.mp hok
  obtain ⟨h₁, hassigned, hjob⟩ := h.linkMaps hmaps
  obtain ⟨-, hok⟩ := require_bind_eq_ok.mp hok
  rw [← hjob, ← hassigned] at hfresh
  refine .inr ⟨maps, ?_⟩
  rcases hrank : s.decideRank t₁.jobMap with _ | rank
  · rw [hrank] at hok hfresh
    exact h₁.pend hplain hfresh hok
  · rw [hrank] at hok hfresh
    obtain ⟨t₂, hok₂, h₂, -⟩ :=
      h₁.assign passes hfresh (lt_of_assign h₁.topology hok) hplain
    cases hok₂.symm.trans hok
    exact h₂

theorem Inv.accept (h : t.Inv) (hfresh : t.Fresh s) (hok : accept order passes t s = .ok t') :
    t'.Inv := by
  rw [RabitTracker.accept] at hok
  split_ifs at hok
  · cases hok
    exact h
  · obtain ⟨-, hok⟩ := require_bind_eq_ok.mp hok
    rcases hcmd : s.cmd with _ | _ | msg | _ | cmd
    · rw [hcmd] at hok
      exact h.join (.inl hcmd) hfresh hok
    · rw [hcmd] at hok
      exact h.join (.inr hcmd) hfresh hok
    · rw [hcmd] at hok
      cases hok
      exact h
    · rw [hcmd] at hok
      obtain ⟨-, hok⟩ := require_bind_eq_ok.mp hok
      obtain ⟨-, hok⟩ := require_bind_eq_ok.mp hok
      cases hok
      rcases h with hnone | ⟨maps, h⟩
      · exact .inl hnone
      · exact .inr ⟨maps, h.maps_eq, h.topology, h.setUp.congr rfl rfl, h.pending, h.todo_nodup,
          h.todo_lt⟩
    · rw [hcmd] at hok
      cases hok

def machine (order : IterationOrder) (passes : ℕ → IterationOrder) (nslave : ℕ) :
    Machine RabitTracker SlaveEntry Fault where
  init := { nslave }
  step t s := t.accept order passes s

theorem Joined.of_reachable {nslave : ℕ} (hmaps : t.maps = some maps)
    (h : (machine order passes nslave).Reachable Fresh t) : t.Joined maps := by
  have hinv : t.Inv := h.invariant (.inl ⟨rfl, rfl, rfl, rfl⟩)
    fun t s t' hinv hfresh hok => hinv.accept hfresh hok
  rcases hinv with ⟨hnone, -⟩ | ⟨maps', hjoined⟩
  · rw [hnone] at hmaps
    cases hmaps
  · rw [hjoined.maps_eq] at hmaps
    cases hmaps
    exact hjoined

instance (t : RabitTracker) (s : SlaveEntry) : Decidable (t.Fresh s) := by
  unfold Fresh SlaveEntry.Plain
  cases s.decideRank t.jobMap <;> dsimp only <;> infer_instance

deriving instance DecidableEq for LinkMaps

def threeMaps : LinkMaps where
  treeMap := [(1, [0]), (2, [0]), (0, [2, 1])]
  parentMap := [(1, 0), (2, 0), (0, -1)]
  ringMap := [(2, 1, 0), (1, 0, 2), (0, 2, 1)]

def threeStarts : List SlaveEntry :=
  [{ sock := ⟨[], [], 9002⟩, host := "10.0.0.3", rank := 2 },
    { sock := ⟨[], [], 9000⟩, host := "10.0.0.1", rank := 0 },
    { sock := ⟨[], [], 9001⟩, host := "10.0.0.2", rank := 1 }]

/-- A slave of a job of `n` that starts. -/
structure Starts (n : ℕ) (s : SlaveEntry) : Prop where
  magic : s.magic = 0xff99
  cmd : s.cmd = .start
  worldSize : s.worldSize = -1 ∨ s.worldSize = n
  plain : s.Plain

def ready (n : ℕ) (maps : LinkMaps) : RabitTracker :=
  { nslave := n, maps := some maps, todoNodes := List.range n }

theorem accept_eq_join (hs : Starts t.nslave s) (hrun : t.shutdown.length ≠ t.nslave) :
    accept order passes t s = join order passes t s := by
  rw [accept, if_neg hrun, require_bind _ hs.magic, hs.cmd]

theorem linkMaps_eq (hs : Starts t.nslave s) (hmaps : t.maps = some maps) :
    linkMaps order t s = .ok (t, maps) := by
  rw [linkMaps, hmaps]
  exact require_bind _ hs.worldSize

theorem linkMaps_init {n : ℕ} (hs : Starts n s)
    (hmaps : getLinkMap order n = .ok (maps.treeMap, maps.parentMap, maps.ringMap)) :
    linkMaps order { nslave := n } s = .ok (ready n maps, maps) := by
  have hsize : (if 0 < s.worldSize then s.worldSize.toNat else n) = n := by
    rcases hs.worldSize with hw | hw <;> rw [hw]
    · rfl
    · rw [Int.toNat_natCast, ite_self]
  rw [linkMaps]
  dsimp only
  rw [require_bind _ hs.cmd, hsize, hmaps, ok_bind]
  rfl

theorem join_eq (hs : Starts t.nslave s) (hmaps : t.maps = some maps) :
    join order passes t s = match s.decideRank t.jobMap with
      | some rank => assign passes maps t rank s
      | none => pend passes maps t s := by
  rw [join, linkMaps_eq hs hmaps, ok_bind]
  exact require_bind _ fun hr => absurd (hs.cmd.symm.trans hr) (by decide)

theorem accept_init {n : ℕ} (hn : 0 < n) (hs : Starts n s)
    (hmaps : getLinkMap order n = .ok (maps.treeMap, maps.parentMap, maps.ringMap)) :
    accept order passes { nslave := n } s = accept order passes (ready n maps) s := by
  rw [accept_eq_join (t := { nslave := n }) hs hn.ne, accept_eq_join (t := ready n maps) hs hn.ne,
    join, join, linkMaps_init hs hmaps, linkMaps_eq (t := ready n maps) hs rfl]

theorem foldlM_accept_init {n : ℕ} {slaves : List SlaveEntry} (hn : 0 < n)
    (hslaves : slaves ≠ []) (hstarts : ∀ s ∈ slaves, Starts n s)
    (hmaps : getLinkMap order n = .ok (maps.treeMap, maps.parentMap, maps.ringMap)) :
    slaves.foldlM (accept order passes) { nslave := n } =
      slaves.foldlM (accept order passes) (ready n maps) := by
  cases slaves with
  | nil => exact absurd rfl hslaves
  | cons s slaves =>
    rw [List.foldlM_cons, List.foldlM_cons, accept_init hn (hstarts s List.mem_cons_self) hmaps]

theorem Joined.ready {n : ℕ}
    (h : IsTopology n maps.treeMap maps.parentMap maps.ringMap) : (ready n maps).Joined maps :=
  ⟨rfl, h, (SetUp.init maps n).congr rfl rfl, fun _ hs => absurd hs List.not_mem_nil,
    List.nodup_range, fun _ hr => List.mem_range.mp hr⟩

/-- All slaves of a job of `n` are linked and none has shut down. -/
structure Full (n : ℕ) (t : RabitTracker) : Prop where
  nslave : t.nslave = n
  shutdown : t.shutdown = []
  waitConn : t.waitConn = []

theorem Joined.full {n : ℕ} (h : t.Joined maps) (hnslave : t.nslave = n)
    (hshutdown : t.shutdown = []) (hall : ∀ r < n, r ∈ t.assigned) : t.Full n :=
  ⟨hnslave, hshutdown, h.setUp.waitConn_eq_nil h.topology fun r hr => hall r (hnslave ▸ hr)⟩

variable (order passes) in
theorem Joined.foldlM_accept {slaves : List SlaveEntry} (h : t.Joined maps)
    (hrun : t.shutdown.length ≠ t.nslave) (hstarts : ∀ s ∈ slaves, Starts t.nslave s)
    (hranks : ∀ s ∈ slaves, 0 ≤ s.rank ∧ s.rank < t.nslave)
    (hnodup : (t.assigned ++ slaves.map fun s => s.rank.toNat).Nodup) :
    ∃ t', slaves.foldlM (accept order passes) t = .ok t' ∧ t'.Joined maps ∧
      t'.nslave = t.nslave ∧ t'.shutdown = t.shutdown ∧
      t'.assigned = t.assigned ++ slaves.map fun s => s.rank.toNat := by
  induction slaves generalizing t with
  | nil => exact ⟨t, rfl, h, rfl, rfl, (List.append_nil _).symm⟩
  | cons s slaves ih =>
    have hs := hstarts s List.mem_cons_self
    obtain ⟨hpos, hlt⟩ := hranks s List.mem_cons_self
    have hrank : s.decideRank t.jobMap = some s.rank.toNat := if_pos hpos
    have hnew : s.rank.toNat ∉ t.assigned := Lists.notMem_of_nodup_append hnodup
    obtain ⟨t₁, hok, h₁, hassigned, -, hframe⟩ := h.assign passes hnew (by omega) hs.plain
    have hshift : t₁.assigned ++ slaves.map (fun s => s.rank.toNat) =
        t.assigned ++ (s :: slaves).map fun s => s.rank.toNat := by
      rw [hassigned, List.append_assoc]
      rfl
    have hnslave : t₁.nslave = t.nslave := by rw [hframe]
    have hshutdown : t₁.shutdown = t.shutdown := by rw [hframe]
    obtain ⟨t', hok', h', hnslave', hshutdown', hassigned'⟩ := ih h₁ (by rw [hframe]; exact hrun)
      (fun s' hs' => hnslave ▸ hstarts s' (List.mem_cons_of_mem _ hs'))
      (fun s' hs' => hnslave ▸ hranks s' (List.mem_cons_of_mem _ hs')) (hshift ▸ hnodup)
    refine ⟨t', ?_, h', hnslave'.trans hnslave, hshutdown'.trans hshutdown, hassigned'.trans hshift⟩
    rw [List.foldlM_cons, accept_eq_join hs hrun, join_eq hs h.maps_eq, hrank]
    dsimp only
    rw [hok]
    exact hok'

variable (order passes) in
theorem accept_given_ranks {n : ℕ} {slaves : List SlaveEntry} (hn : 0 < n)
    (hstarts : ∀ s ∈ slaves, Starts n s) (hpos : ∀ s ∈ slaves, 0 ≤ s.rank)
    (hranks : (slaves.map fun s => s.rank.toNat).Perm (List.range n)) :
    ∃ t, slaves.foldlM (accept order passes) { nslave := n } = .ok t ∧
      t.assigned = slaves.map (fun s => s.rank.toNat) ∧ t.Full n := by
  obtain ⟨maps, hmaps, htop⟩ := exists_linkMaps order hn
  have hne : slaves ≠ [] := by
    rintro rfl
    have := hranks.length_eq
    simp at this
    omega
  have hlt : ∀ s ∈ slaves, 0 ≤ s.rank ∧ s.rank < n := by
    intro s hs
    have hmem : s.rank.toNat ∈ List.range n := hranks.mem_iff.mp (List.mem_map_of_mem hs)
    have := List.mem_range.mp hmem
    have := hpos s hs
    omega
  obtain ⟨t, hok, ht, hnslave, hshutdown, hassigned⟩ := (Joined.ready htop).foldlM_accept order
    passes hn.ne hstarts hlt (hranks.nodup_iff.mpr List.nodup_range)
  refine ⟨t, ?_, hassigned, ht.full hnslave hshutdown fun r hr => ?_⟩
  · rw [foldlM_accept_init hn hne hstarts hmaps]
    exact hok
  · rw [hassigned]
    exact hranks.mem_iff.mpr (List.mem_range.mpr hr)

theorem accept_eq_pend (h : t.Joined maps) (hrun : t.shutdown.length ≠ t.nslave)
    (hjobs : t.jobMap = []) (hs : Starts t.nslave s) (hrank : s.rank < 0) :
    accept order passes t s = pend passes maps t s := by
  have hnone : s.decideRank t.jobMap = none := by
    rw [SlaveEntry.decideRank, if_neg (by omega), hjobs]
    exact ite_self _
  rw [accept_eq_join hs hrun, join_eq hs h.maps_eq, hnone]

variable (order passes) in
theorem Joined.foldlM_pend {slaves : List SlaveEntry} (h : t.Joined maps)
    (hrun : t.shutdown.length ≠ t.nslave) (hjobs : t.jobMap = [])
    (hstarts : ∀ s ∈ slaves, Starts t.nslave s) (hranks : ∀ s ∈ slaves, s.rank < 0)
    (hlen : t.pending.length + slaves.length < t.todoNodes.length) :
    slaves.foldlM (accept order passes) t = .ok { t with pending := t.pending ++ slaves } ∧
      Joined maps { t with pending := t.pending ++ slaves } := by
  induction slaves generalizing t with
  | nil =>
    rw [List.append_nil]
    exact ⟨rfl, h⟩
  | cons s slaves ih =>
    have hs := hstarts s List.mem_cons_self
    have hless : (t.pending ++ [s]).length + slaves.length < t.todoNodes.length := by
      rw [List.length_cons] at hlen
      rw [List.length_append, List.length_singleton]
      omega
    have hstep : accept order passes t s = .ok { t with pending := t.pending ++ [s] } := by
      rw [accept_eq_pend h hrun hjobs hs (hranks s List.mem_cons_self)]
      exact pend_of_ne (List.length_pos_iff.mp (by omega)) (by omega)
    obtain ⟨hok, h'⟩ := ih (h.keep hs.plain) hrun hjobs
      (fun s' hs' => hstarts s' (List.mem_cons_of_mem _ hs'))
      (fun s' hs' => hranks s' (List.mem_cons_of_mem _ hs')) hless
    rw [List.append_assoc, List.singleton_append] at hok h'
    rw [List.foldlM_cons, hstep]
    exact ⟨hok, h'⟩

variable (order passes) in
theorem accept_any_ranks {n : ℕ} {slaves : List SlaveEntry} (hn : 0 < n)
    (hlen : slaves.length = n) (hstarts : ∀ s ∈ slaves, Starts n s)
    (hranks : ∀ s ∈ slaves, s.rank < 0) :
    ∃ t, slaves.foldlM (accept order passes) { nslave := n } = .ok t ∧
      t.assigned = List.range n ∧ t.hosts.Perm (slaves.map SlaveEntry.host) ∧
      t.hosts.Pairwise (· ≤ ·) ∧ t.Full n := by
  obtain ⟨maps, hmaps, htop⟩ := exists_linkMaps order hn
  have hne : slaves ≠ [] := List.length_pos_iff.mp (hlen ▸ hn)
  rw [foldlM_accept_init hn hne hstarts hmaps]
  obtain ⟨slaves, s, rfl⟩ := (List.eq_nil_or_concat' slaves).resolve_left hne
  rw [List.length_append, List.length_singleton] at hlen
  -- all but the last are kept
  obtain ⟨hkept, h⟩ := (Joined.ready htop).foldlM_pend order passes hn.ne rfl
    (fun s' hs' => hstarts s' (List.mem_append_left _ hs'))
    (fun s' hs' => hranks s' (List.mem_append_left _ hs'))
    (show 0 + slaves.length < (List.range n).length by rw [List.length_range]; omega)
  have hlast : s ∈ slaves ++ [s] := List.mem_append_right _ List.mem_cons_self
  -- with the last there is one for each rank
  have hfull : (slaves ++ [s]).length = (List.range n).length := by
    rw [List.length_range, List.length_append, List.length_singleton, hlen]
  obtain ⟨t, hok, ht, hnslave, hshutdown, hassigned, hhosts⟩ :=
    h.batch passes rfl (fun s' hs' => (hstarts s' hs').plain) hfull
  refine ⟨t, ?_, hassigned, ?_, ?_, ht.full hnslave hshutdown fun r hr => ?_⟩
  · rw [List.foldlM_append, hkept, ok_bind, List.foldlM_cons,
      accept_eq_pend h hn.ne rfl (hstarts s hlast) (hranks s hlast), pend_of_eq hfull]
    exact (bind_pure _).trans hok
  · rw [hhosts]
    exact (List.mergeSort_perm _ _).map _
  · rw [hhosts, List.pairwise_map]
    exact pairwise_byHost _
  · rw [hassigned]
    exact List.mem_range.mpr hr

/-! ## Slaves that shut down -/

structure ShutsDown (s : SlaveEntry) : Prop where
  magic : s.magic = 0xff99
  cmd : s.cmd = .shutdown
  rank : 0 ≤ s.rank

variable (order passes) in
theorem foldlM_shutdown {slaves : List SlaveEntry} (hwait : t.waitConn = [])
    (hslaves : ∀ s ∈ slaves, ShutsDown s)
    (hnodup : (t.shutdown ++ slaves.map fun s => s.rank.toNat).Nodup)
    (hlen : t.shutdown.length + slaves.length ≤ t.nslave) :
    slaves.foldlM (accept order passes) t =
      .ok { t with shutdown := t.shutdown ++ slaves.map fun s => s.rank.toNat } := by
  induction slaves generalizing t with
  | nil =>
    rw [List.map_nil, List.append_nil]
    rfl
  | cons s slaves ih =>
    have hs := hslaves s List.mem_cons_self
    rw [List.length_cons] at hlen
    have hnew : s.rank.toNat ∉ t.shutdown := Lists.notMem_of_nodup_append hnodup
    have hnone : t.waitConn.get? s.rank.toNat = none := by rw [hwait]; rfl
    have hstep : accept order passes t s =
        .ok { t with shutdown := t.shutdown ++ [s.rank.toNat] } := by
      rw [accept, if_neg (by omega), require_bind _ hs.magic, hs.cmd]
      dsimp only
      rw [require_bind _ ⟨hs.rank, hnew⟩, require_bind _ hnone]
      rfl
    have hshift : (t.shutdown ++ [s.rank.toNat]) ++ slaves.map (fun s => s.rank.toNat) =
        t.shutdown ++ (s :: slaves).map fun s => s.rank.toNat := by
      rw [List.append_assoc]
      rfl
    have hlen' : (t.shutdown ++ [s.rank.toNat]).length + slaves.length ≤ t.nslave := by
      rw [List.length_append, List.length_singleton]
      omega
    have hrest := @ih { t with shutdown := t.shutdown ++ [s.rank.toNat] } hwait
      (fun s' hs' => hslaves s' (List.mem_cons_of_mem _ hs')) (hshift ▸ hnodup) hlen'
    rw [List.foldlM_cons, hstep, ok_bind, hrest, hshift]

variable (order passes) in
theorem Full.finishes {n : ℕ} {slaves : List SlaveEntry} (h : t.Full n)
    (hslaves : ∀ s ∈ slaves, ShutsDown s)
    (hranks : (slaves.map fun s => s.rank.toNat).Perm (List.range n)) :
    ∃ t', slaves.foldlM (accept order passes) t = .ok t' ∧ t'.shutdown.length = t'.nslave := by
  have hlen : slaves.length = n := by
    rw [← List.length_map (fun s : SlaveEntry => s.rank.toNat), hranks.length_eq, List.length_range]
  refine ⟨_, foldlM_shutdown order passes h.waitConn hslaves ?_ ?_, ?_⟩
  · rw [h.shutdown, List.nil_append]
    exact hranks.nodup_iff.mpr List.nodup_range
  · rw [h.shutdown, h.nslave, hlen]
    exact (Nat.zero_add n).le
  · rw [h.shutdown, List.nil_append, List.length_map, hlen]
    exact h.nslave.symm

def threeShutdowns : List SlaveEntry :=
  [{ sock := ⟨[], [], 9000⟩, host := "10.0.0.2", rank := 1, cmd := .shutdown },
    { sock := ⟨[], [], 9000⟩, host := "10.0.0.1", rank := 0, cmd := .shutdown },
    { sock := ⟨[], [], 9000⟩, host := "10.0.0.3", rank := 2, cmd := .shutdown }]

end RabitTracker

end Tracker
