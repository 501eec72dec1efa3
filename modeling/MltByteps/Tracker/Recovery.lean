import MltByteps.Lib.WaitCounts
import MltByteps.Tracker.AcceptRuns

/-! Slaves that come back to the tracker after links have broken: those that were started again
and those that have lost a link to one of them. -/

namespace Tracker

open JoinOrder

/-! ## One slave -/

def missing (maps : LinkMaps) (v : ℕ) (s : SlaveEntry) : List ℕ :=
  (nbrs maps v).filter fun r : ℕ => (r : ℤ) ∉ s.sock.good

def SlaveEntry.Knows (maps : LinkMaps) (v : ℕ) (s : SlaveEntry) : Prop :=
  ∀ good ∈ s.sock.failed ++ [s.sock.good], ∀ r ∈ good, r ∈ (nbrs maps v).map Int.ofNat

/-- The links that are made: those that the slave was told of in the round in which no connection
failed. -/
def Assignment.made (a : Assignment) : List ℕ :=
  match a.heard.getLast? with
  | some connect => connect.map fun x => x.2.2
  | none => []

/-- What `assign_rank` does for a rank that has the given links to set up. -/
structure Reassigns (d : Dict ℕ SlaveEntry) (miss : List ℕ) (v : ℕ) (s : SlaveEntry)
    (a : Assignment) : Prop where
  rank : a.rank = v
  host : a.entry.host = s.host
  port : a.entry.port = s.sock.port
  made : a.made.Perm (miss.filter fun r => (d.get? r).isSome)
  address : ∀ x ∈ a.connects, ∃ e, d.get? x.2.2 = some e ∧ x.1 = e.host ∧ x.2.1 = e.port
  waitAccept : a.entry.waitAccept = (miss.length : ℤ) - a.made.length
  waitConn : ∀ r, a.waitConn.get? r = if r ∈ a.made then
    (d.get? r).bind fun e => if e.waitAccept = 1 then none else some e.counted
  else d.get? r

theorem linkRound_spec {nnset : List ℕ} {good : List ℤ}
    (hgood : ∀ r ∈ good, r ∈ nnset.map Int.ofNat) (order : IterationOrder)
    (d : Dict ℕ SlaveEntry) (i : ℕ) : ∃ round, linkRound order d nnset i good = .ok round ∧
      round.badset.Perm (nnset.filter fun r : ℕ => (r : ℤ) ∉ good) ∧
      round.conset = round.badset.filter (fun r => (d.get? r).isSome) ∧
      ∀ x ∈ round.connect, ∃ e, d.get? x.2.2 = some e ∧ x.1 = e.host ∧ x.2.1 = e.port := by
  rw [linkRound, require_bind _ hgood]
  dsimp only
  generalize hbad : order.ofSet i (nnset.filter fun r : ℕ => (r : ℤ) ∉ good) = badset
  obtain ⟨connect, hok, -, haddr⟩ := @connect_spec d
    (badset.filter fun r => (d.get? r).isSome) fun r hr => (List.mem_filter.mp hr).2
  rw [hok, ok_bind]
  exact ⟨_, rfl, hbad ▸ order.ofSet_perm _ _, rfl, haddr⟩

theorem linkRounds_spec {nnset : List ℕ} {goods : List (List ℤ × ℕ)}
    (hgood : ∀ x ∈ goods, ∀ r ∈ x.1, r ∈ nnset.map Int.ofNat) (order : IterationOrder)
    (d : Dict ℕ SlaveEntry) : ∃ rounds,
      (goods.mapM fun x => linkRound order d nnset (x.2 + 1) x.1) = .ok rounds ∧
      ∀ x ∈ rounds.flatMap Round.connect,
        ∃ e, d.get? x.2.2 = some e ∧ x.1 = e.host ∧ x.2.1 = e.port := by
  induction goods with
  | nil => exact ⟨[], rfl, fun _ hx => absurd hx List.not_mem_nil⟩
  | cons g goods ih =>
    obtain ⟨round, hround, -, -, haddr⟩ :=
      linkRound_spec (hgood g List.mem_cons_self) order d (g.2 + 1)
    obtain ⟨rounds, hok, hrest⟩ := ih fun x hx => hgood x (List.mem_cons_of_mem _ hx)
    refine ⟨round :: rounds, ?_, fun x hx => ?_⟩
    · rw [List.mapM_cons, hround, ok_bind, hok]
      rfl
    · rw [List.flatMap_cons, List.mem_append] at hx
      exact hx.elim (haddr x) (hrest x)

theorem assignRank_spec {n v : ℕ} {maps : LinkMaps} {s : SlaveEntry}
    (h : IsTopology n maps.treeMap maps.parentMap maps.ringMap) (hv : v < n)
    (hs : s.Knows maps v) (order : IterationOrder) (d : Dict ℕ SlaveEntry) : ∃ a,
      assignRank order maps.treeMap maps.parentMap maps.ringMap d v s = .ok a ∧
        Reassigns d (missing maps v s) v s a := by
  obtain ⟨tree, htree⟩ := Option.isSome_iff_exists.mp ((h.tree_keys v).mpr hv)
  obtain ⟨parent, hparent⟩ := Option.isSome_iff_exists.mp ((h.parent_keys v).mpr hv)
  obtain ⟨prev, next, hring, -⟩ := h.ring v hv
  have hnbrs : nbrs maps v = linkSet tree prev next v := by
    rw [nbrs, hring, neighbors, htree]
    rfl
  have hknow : ∀ x ∈ s.sock.failed.zipIdx, ∀ r ∈ x.1, r ∈ (nbrs maps v).map Int.ofNat :=
    fun x hx => hs x.1 (List.mem_append_left _ (List.fst_mem_of_mem_zipIdx hx))
  obtain ⟨failed, hfailed, hfaddr⟩ := linkRounds_spec hknow order d
  obtain ⟨last, hlast, hbad, hcon, hladdr⟩ := linkRound_spec
    (hs s.sock.good (List.mem_append_right _ (List.mem_singleton_self _))) order d
    (s.sock.failed.length + 1)
  have hnodup : last.conset.Nodup := by
    rw [hcon]
    exact (hbad.nodup_iff.mpr ((nodup_nbrs maps v).filter _)).filter _
  have hwaits : ∀ r ∈ last.conset, (d.get? r).isSome := by
    rw [hcon]
    exact fun r hr => (List.mem_filter.mp hr).2
  obtain ⟨d', rmset, hcount, hget, hrm⟩ := @countDown_loop d last.conset [] hnodup hwaits
  have hassign : ∃ a, assignRank order maps.treeMap maps.parentMap maps.ringMap d v s = .ok a ∧
      a.rank = v ∧ a.entry.host = s.host ∧ a.entry.port = s.sock.port ∧
      a.rounds = failed ++ [last] ∧
      a.entry.waitAccept = (last.badset.length : ℤ) - last.conset.length ∧
      a.waitConn = rmset.foldl Dict.erase d' := by
    rw [assignRank, item_of_get? htree, ok_bind, item_of_get? hring, ok_bind]
    dsimp only
    rw [item_of_get? hparent, ok_bind, ← hnbrs, hfailed, ok_bind, hlast, ok_bind, hcount, ok_bind]
    exact ⟨_, rfl, rfl, rfl, rfl, rfl, rfl, rfl⟩
  obtain ⟨a, hok, hrank, hhost, hport, hrounds, hwait, hconn⟩ := hassign
  have hheard : a.heard = failed.map Round.connect ++ [last.connect] := by
    rw [heard_of_assignRank hok, hrounds, List.map_append]
    rfl
  have hmade : a.made = last.conset := by
    rw [Assignment.made, hheard, List.getLast?_append, List.getLast?_singleton]
    exact linkRound_connect hlast
  refine ⟨a, hok, hrank, hhost, hport, ?_, fun x hx => ?_, ?_, ?_⟩
  · rw [hmade, hcon]
    exact hbad.filter _
  · rw [Assignment.connects, hheard, List.flatten_append, List.flatten_singleton,
      ← List.flatMap_def, List.mem_append] at hx
    exact hx.elim (hfaddr x) (hladdr x)
  · rw [hwait, hmade, missing, ← hbad.length_eq]
  · rw [hconn, hmade]
    exact get?_settle hget hrm

/-! ## The slaves that come back -/

def waitCount (d : Dict ℕ SlaveEntry) (r : ℕ) : Option ℤ := (d.get? r).map SlaveEntry.waitAccept

theorem isSome_waitCount (d : Dict ℕ SlaveEntry) (r : ℕ) :
    (waitCount d r).isSome = (d.get? r).isSome := Option.isSome_map

theorem Reassigns.waitCount {d : Dict ℕ SlaveEntry} {miss : List ℕ} {v r : ℕ} {s : SlaveEntry}
    {a : Assignment} (ha : Reassigns d miss v s a) : waitCount a.waitConn r = if r ∈ a.made then
      (waitCount d r).bind fun k => if k = 1 then none else some (k - 1)
    else waitCount d r := by
  unfold Tracker.waitCount
  rw [ha.waitConn]
  by_cases hr : r ∈ a.made
  · rw [if_pos hr, if_pos hr]
    rcases d.get? r with _ | e
    · rfl
    · rw [Option.bind_some, Option.map_some, Option.bind_some]
      split_ifs <;> rfl
  · rw [if_neg hr, if_neg hr]

theorem waitCount_waitAfter {d : Dict ℕ SlaveEntry} {v : ℕ} {a : Assignment} {r : ℕ} :
    waitCount (RabitTracker.waitAfter d v a) r =
      if r = v ∧ 0 < a.entry.waitAccept then some a.entry.waitAccept else waitCount d r := by
  unfold waitCount
  rw [RabitTracker.get?_waitAfter]
  split_ifs <;> rfl

/-- A slave that comes back with the links `miss` to set up, and gets its rank again. -/
structure Rejoins (n : ℕ) (maps : LinkMaps) (jobMap : Dict String ℕ) (miss : ℕ → List ℕ)
    (x : ℕ × SlaveEntry) : Prop where
  magic : x.2.magic = 0xff99
  cmd : x.2.cmd = .start ∨ x.2.cmd = .recover ∧ 0 ≤ x.2.rank
  worldSize : x.2.worldSize = -1 ∨ x.2.worldSize = n
  rank : x.2.decideRank jobMap = some x.1
  rank_lt : x.1 < n
  knows : x.2.Knows maps x.1
  missing : (missing maps x.1 x.2).Perm (miss x.1)

/-- Links that are broken, and the slaves that come back: both ends of each of these links, and
any others. -/
structure Breakdown (n : ℕ) (maps : LinkMaps) (jobMap : Dict String ℕ) where
  miss : ℕ → List ℕ
  slaves : List (ℕ × SlaveEntry)
  nodup : ∀ a, (miss a).Nodup
  symm : ∀ a b, b ∈ miss a → a ∈ miss b
  linked : ∀ a b, b ∈ miss a → Linked maps a b
  ranks : (slaves.map Prod.fst).Nodup
  back : ∀ a, miss a ≠ [] → a ∈ slaves.map Prod.fst
  rejoins : ∀ x ∈ slaves, Rejoins n maps jobMap miss x

theorem Breakdown.isGraph {n : ℕ} {maps : LinkMaps} {jobMap : Dict String ℕ}
    (e : Breakdown n maps jobMap) : IsGraph e.miss :=
  ⟨e.nodup, e.symm, fun a ha => (e.linked a a ha).1 rfl⟩

/-- The links that were made in the given calls of `assign_rank`, each from the rank that was told
to connect. -/
def madeLinks (new : List Assignment) : List (ℕ × ℕ) :=
  new.flatMap fun a => a.made.map (Prod.mk a.rank)

/-- The slaves of `new` have come back and some of their links are still to be made. -/
structure Rejoined (miss : ℕ → List ℕ) (waitConn : Dict ℕ SlaveEntry) (new : List Assignment) :
    Prop where
  waiting : ∀ r, waitCount waitConn r = waits miss (new.map Assignment.rank) r
  made : (madeLinks new).Perm (links miss (new.map Assignment.rank))
  host : ∀ r e, waitConn.get? r = some e → ∃ a ∈ new,
    a.rank = r ∧ a.entry.host = e.host ∧ a.entry.port = e.port
  address : ∀ a ∈ new, ∀ x ∈ a.connects, ∃ a' ∈ new,
    a'.rank = x.2.2 ∧ a'.entry.host = x.1 ∧ a'.entry.port = x.2.1

theorem Rejoined.nil (miss : ℕ → List ℕ) : Rejoined miss [] [] where
  waiting _ := (waits_of_notMem List.not_mem_nil).symm
  made := List.Perm.refl _
  host _ _ he := nomatch he
  address _ ha := absurd ha List.not_mem_nil

section Rejoined

variable {miss : ℕ → List ℕ} {d : Dict ℕ SlaveEntry} {new : List Assignment} {v : ℕ}
  {s : SlaveEntry} {a : Assignment}

theorem Rejoined.made_perm (h : Rejoined miss d new) (hg : IsGraph miss)
    (hv : v ∉ new.map Assignment.rank) (ha : Reassigns d (miss v) v s a) :
    a.made.Perm (present miss (new.map Assignment.rank) v) := by
  rw [← filter_waits hg hv]
  refine ha.made.trans (List.Perm.of_eq (List.filter_congr fun r _ => ?_))
  rw [← h.waiting, isSome_waitCount]

theorem Rejoined.assign (h : Rejoined miss d new) (hg : IsGraph miss)
    (hv : v ∉ new.map Assignment.rank) (ha : Reassigns d (miss v) v s a) :
    Rejoined miss (RabitTracker.waitAfter a.waitConn v a) (new ++ [a]) := by
  have hmade := h.made_perm hg hv ha
  have hranks : (new ++ [a]).map Assignment.rank = new.map Assignment.rank ++ [v] := by
    rw [List.map_append, List.map_singleton, ha.rank]
  refine ⟨fun r => ?_, ?_, fun r e he => ?_, fun a' ha' x hx => ?_⟩
  · rw [hranks, waitCount_waitAfter, ha.waitCount, h.waiting, ha.waitAccept, hmade.length_eq]
    by_cases hr : r = v
    · subst hr
      have hout : r ∉ a.made := fun hm => hv (mem_present.mp (hmade.mem_iff.mp hm)).2
      simp only [true_and, if_neg hout, waits_of_notMem hv]
      exact (waits_join_self hg hv).symm
    · rw [if_neg fun hc => hr hc.1, waits_join_of_ne hg hv hr]
      simp only [hmade.mem_iff]
  · rw [hranks, links_join, madeLinks, List.flatMap_append, List.flatMap_singleton, ha.rank]
    exact h.made.append (hmade.map _)
  · rw [RabitTracker.get?_waitAfter] at he
    split_ifs at he with hr
    · cases he
      exact ⟨a, List.mem_append_right _ (List.mem_singleton_self a), ha.rank.trans hr.1.symm, rfl,
        rfl⟩
    · obtain ⟨e', he', hhost, hport⟩ : ∃ e', d.get? r = some e' ∧ e'.host = e.host ∧
          e'.port = e.port := by
        rw [ha.waitConn] at he
        split_ifs at he
        · obtain ⟨e', he', he⟩ := Option.bind_eq_some_iff.mp he
          split_ifs at he
          cases he
          exact ⟨e', he', rfl, rfl⟩
        · exact ⟨e, he, rfl, rfl⟩
      obtain ⟨b, hb, hrank, hhost', hport'⟩ := h.host r e' he'
      exact ⟨b, List.mem_append_left _ hb, hrank, hhost'.trans hhost, hport'.trans hport⟩
  · rcases List.mem_append.mp ha' with ha' | ha'
    · obtain ⟨b, hb, hx⟩ := h.address a' ha' x hx
      exact ⟨b, List.mem_append_left _ hb, hx⟩
    · rw [List.mem_singleton.mp ha'] at hx
      obtain ⟨e, he, hhost, hport⟩ := ha.address x hx
      obtain ⟨b, hb, hrank, hhost', hport'⟩ := h.host _ e he
      exact ⟨b, List.mem_append_left _ hb, hrank, hhost'.trans hhost.symm,
        hport'.trans hport.symm⟩

end Rejoined

/-! ## Runs -/

theorem Reassigns.perm {d : Dict ℕ SlaveEntry} {miss miss' : List ℕ} {v : ℕ} {s : SlaveEntry}
    {a : Assignment} (ha : Reassigns d miss v s a) (hperm : miss.Perm miss') :
    Reassigns d miss' v s a :=
  ⟨ha.rank, ha.host, ha.port, ha.made.trans (hperm.filter _), ha.address,
    hperm.length_eq ▸ ha.waitAccept, ha.waitConn⟩

namespace RabitTracker

variable {order : IterationOrder} {passes : ℕ → IterationOrder} {n : ℕ} {maps : LinkMaps}
  {jobMap : Dict String ℕ} {t : RabitTracker} {miss : ℕ → List ℕ}

structure Running (n : ℕ) (maps : LinkMaps) (jobMap : Dict String ℕ) (t : RabitTracker) : Prop where
  maps_eq : t.maps = some maps
  nslave : t.nslave = n
  jobMap : t.jobMap = jobMap
  shutdown : t.shutdown.length ≠ n

theorem Running.congr {t' : RabitTracker} (h : t.Running n maps jobMap)
    (hframe : t' = { t with waitConn := t'.waitConn, assignments := t'.assignments }) :
    t'.Running n maps jobMap := by
  refine ⟨?_, ?_, ?_, ?_⟩ <;> rw [hframe]
  · exact h.maps_eq
  · exact h.nslave
  · exact h.jobMap
  · exact h.shutdown

variable (order passes) in
theorem Running.accept_eq {x : ℕ × SlaveEntry} (h : t.Running n maps jobMap)
    (hx : Rejoins n maps jobMap miss x) :
    accept order passes t x.2 = assign passes maps t x.1 x.2 := by
  have hmaps : linkMaps order t x.2 = .ok (t, maps) := by
    rw [linkMaps, h.maps_eq]
    exact require_bind _ (h.nslave ▸ hx.worldSize)
  have hrank : x.2.decideRank t.jobMap = some x.1 := h.jobMap ▸ hx.rank
  have hjoin : (x.2.cmd = .recover → 0 ≤ x.2.rank) →
      join order passes t x.2 = assign passes maps t x.1 x.2 := by
    intro hrec
    rw [join, hmaps, ok_bind]
    dsimp only
    rw [require_bind _ hrec, hrank]
  rw [accept, if_neg (h.nslave ▸ h.shutdown), require_bind _ hx.magic]
  rcases hx.cmd with hcmd | ⟨hcmd, hpos⟩
  · rw [hcmd]
    exact hjoin fun hrec => absurd (hcmd.symm.trans hrec) (by decide)
  · rw [hcmd]
    exact hjoin fun _ => hpos

variable (order passes) in
theorem Running.foldlM_accept {old new : List Assignment} {slaves : List (ℕ × SlaveEntry)}
    (h : t.Running n maps jobMap) (htop : IsTopology n maps.treeMap maps.parentMap maps.ringMap)
    (hg : IsGraph miss) (hassign : t.assignments = old ++ new) (hnew : Rejoined miss t.waitConn new)
    (hslaves : ∀ x ∈ slaves, Rejoins n maps jobMap miss x)
    (hnodup : (new.map Assignment.rank ++ slaves.map Prod.fst).Nodup) :
    ∃ t' new', (slaves.map Prod.snd).foldlM (accept order passes) t = .ok t' ∧
      t'.Running n maps jobMap ∧ t'.shutdown = t.shutdown ∧ t'.assignments = old ++ new' ∧
      Rejoined miss t'.waitConn new' ∧
      new'.map Assignment.rank = new.map Assignment.rank ++ slaves.map Prod.fst := by
  induction slaves generalizing t new with
  | nil => exact ⟨t, new, rfl, h, rfl, hassign, hnew, (List.append_nil _).symm⟩
  | cons x slaves ih =>
    have hx := hslaves x List.mem_cons_self
    have hv : x.1 ∉ new.map Assignment.rank := Lists.notMem_of_nodup_append hnodup
    obtain ⟨a, hok, ha⟩ := assignRank_spec htop hx.rank_lt hx.knows (passes x.1) t.waitConn
    have ha := ha.perm hx.missing
    have hstep : accept order passes t x.2 = .ok { t with
        waitConn := waitAfter a.waitConn x.1 a, assignments := t.assignments ++ [a] } := by
      rw [h.accept_eq order passes hx, assign, hok, ok_bind]
      rfl
    have hranks : (new ++ [a]).map Assignment.rank = new.map Assignment.rank ++ [x.1] := by
      rw [List.map_append, List.map_singleton, ha.rank]
    have hshift : (new ++ [a]).map Assignment.rank ++ slaves.map Prod.fst =
        new.map Assignment.rank ++ (x :: slaves).map Prod.fst := by
      rw [hranks, List.append_assoc]
      rfl
    obtain ⟨t', new', hok', h', hshutdown, hassign', hnew', hranks'⟩ := @ih { t with
        waitConn := waitAfter a.waitConn x.1 a, assignments := t.assignments ++ [a] } (new ++ [a])
      (h.congr rfl) (by rw [hassign, List.append_assoc]) (hnew.assign hg hv ha)
      (fun y hy => hslaves y (List.mem_cons_of_mem _ hy)) (hshift ▸ hnodup)
    refine ⟨t', new', ?_, h', hshutdown, hassign', hnew', hranks'.trans hshift⟩
    rw [List.map_cons, List.foldlM_cons, hstep]
    exact hok'

/-- What the calls of `assign_rank` for the slaves of a breakdown have done: each broken link is
made once, from one of its ends, and no other; and every address that was told is one that a slave
has given when it came back. -/
structure Repaired (e : Breakdown n maps jobMap) (new : List Assignment) : Prop where
  ranks : new.map Assignment.rank = e.slaves.map Prod.fst
  made : ∀ a b, (madeLinks new).count (a, b) + (madeLinks new).count (b, a) =
    if b ∈ e.miss a then 1 else 0
  address : ∀ a ∈ new, ∀ x ∈ a.connects, ∃ a' ∈ new,
    a'.rank = x.2.2 ∧ a'.entry.host = x.1 ∧ a'.entry.port = x.2.1

theorem Repaired.of_rejoined {e : Breakdown n maps jobMap} {d : Dict ℕ SlaveEntry}
    {new : List Assignment} (h : Rejoined e.miss d new)
    (hranks : new.map Assignment.rank = e.slaves.map Prod.fst) : Repaired e new ∧ d = [] := by
  refine ⟨⟨hranks, fun a b => ?_, h.address⟩, Dict.eq_nil_of_get? fun r => ?_⟩
  · rw [h.made.count_eq, h.made.count_eq, hranks]
    exact count_links_both e.isGraph e.ranks e.back
  · have hwait := h.waiting r
    rw [hranks, waits_eq_none e.isGraph e.back] at hwait
    exact Option.map_eq_none_iff.mp hwait

variable (order passes) in
theorem Running.repair (h : t.Running n maps jobMap)
    (htop : IsTopology n maps.treeMap maps.parentMap maps.ringMap) (hwait : t.waitConn = [])
    (e : Breakdown n maps jobMap) :
    ∃ t' new, (e.slaves.map Prod.snd).foldlM (accept order passes) t = .ok t' ∧
      t'.Running n maps jobMap ∧ t'.shutdown = t.shutdown ∧ t'.waitConn = [] ∧
      t'.assignments = t.assignments ++ new ∧ Repaired e new := by
  obtain ⟨t', new, hok, h', hshutdown, hassign, hnew, hranks⟩ := h.foldlM_accept order passes htop
    e.isGraph (List.append_nil _).symm (hwait ▸ Rejoined.nil e.miss) e.rejoins e.ranks
  obtain ⟨hrepaired, hnil⟩ := Repaired.of_rejoined hnew hranks
  exact ⟨t', new, hok, h', hshutdown, hnil, hassign, hrepaired⟩

variable (order passes) in
theorem Running.repairAll (h : t.Running n maps jobMap)
    (htop : IsTopology n maps.treeMap maps.parentMap maps.ringMap) (hwait : t.waitConn = [])
    (breakdowns : List (Breakdown n maps jobMap)) :
    ∃ t' news, (breakdowns.flatMap fun e => e.slaves.map Prod.snd).foldlM
        (accept order passes) t = .ok t' ∧ t'.Running n maps jobMap ∧ t'.shutdown = t.shutdown ∧
      t'.waitConn = [] ∧ t'.assignments = t.assignments ++ news.flatten ∧
      List.Forall₂ Repaired breakdowns news := by
  induction breakdowns generalizing t with
  | nil => exact ⟨t, [], rfl, h, rfl, hwait, (List.append_nil _).symm, .nil⟩
  | cons e breakdowns ih =>
    obtain ⟨t₁, new, hok, h₁, hshutdown, hwait₁, hassign, hrep⟩ :=
      h.repair order passes htop hwait e
    obtain ⟨t', news, hok', h', hshutdown', hwait', hassign', hreps⟩ := ih h₁ hwait₁
    refine ⟨t', new :: news, ?_, h', hshutdown'.trans hshutdown, hwait', ?_, .cons hrep hreps⟩
    · rw [List.flatMap_cons, List.foldlM_append, hok]
      exact hok'
    · rw [hassign', hassign, List.append_assoc]
      rfl

def ThreeStarted (t : RabitTracker) : Prop :=
  t.maps = some threeMaps ∧ t.nslave = 3 ∧ t.jobMap = [] ∧ t.shutdown = [] ∧
    ∀ r < 3, r ∈ t.assigned

instance : DecidablePred ThreeStarted := fun _ => inferInstanceAs (Decidable (_ ∧ _))

/-- Slave 1 is started again on another host; its first round fails. The link between the other
two is good. -/
def slaveOneLost : Breakdown 3 threeMaps [] where
  miss a := if a = 1 then [0, 2] else if a = 0 ∨ a = 2 then [1] else []
  slaves := [(2, { sock := ⟨[], [0], 9012⟩, host := "10.0.0.3", rank := 2, cmd := .recover }),
    (1, { sock := ⟨[[]], [], 9011⟩, host := "10.0.0.9", rank := 1 }),
    (0, { sock := ⟨[], [2], 9010⟩, host := "10.0.0.1", rank := 0, cmd := .recover })]
  nodup a := by split_ifs <;> decide
  symm a b h := by
    split_ifs at h with h1 h2 <;> simp at h
    · rcases h with rfl | rfl <;> simp [h1]
    · subst h
      rcases h2 with rfl | rfl <;> simp
  linked a b h := by
    split_ifs at h with h1 h2 <;> simp at h
    · subst h1
      rcases h with rfl | rfl <;> decide
    · subst h
      rcases h2 with rfl | rfl <;> decide
  ranks := by decide
  back a h := by
    split_ifs at h with h1 h2 <;> simp at h
    · simp [h1]
    · rcases h2 with rfl | rfl <;> simp
  rejoins x hx := by
    simp only [List.mem_cons, List.not_mem_nil, or_false] at hx
    rcases hx with rfl | rfl | rfl
    · exact ⟨rfl, .inr ⟨rfl, by decide⟩, .inl rfl, rfl, by decide,
        by unfold SlaveEntry.Knows; decide, by decide⟩
    · exact ⟨rfl, .inl rfl, .inl rfl, rfl, by decide, by unfold SlaveEntry.Knows; decide, by decide⟩
    · exact ⟨rfl, .inr ⟨rfl, by decide⟩, .inl rfl, rfl, by decide,
        by unfold SlaveEntry.Knows; decide, by decide⟩

end RabitTracker

end Tracker
