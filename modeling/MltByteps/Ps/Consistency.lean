import MltByteps.Ps.PushPull

/-! Pushes and pulls that overlap. Each server handles the pushes that reach it one after the
other. What a pull gets for a key is the sum of some of the first pushes that the key's server
has handled, and these include all pushes that were waited for before the pull was called. -/

namespace Ps

variable {V : Type} {cfg : Config}

namespace Request

variable {r r' : Request V} {push : Bool} {slices : List (Option (KVPairs V))}
  {o : Order cfg V} {P P' : ℕ → V → Prop} {num : ℕ}
  {Issues : Bool → KVPairs V → Option Callback → Buffers V → Prop}
  {Answers : Message V → Message V → Prop}

/-! ## The answers of one request -/

theorem Inv.gathering_of_answers (h : r.Inv cfg) (hne : r.answers ≠ []) :
    ∃ push slices, r.Gathering cfg push slices := by
  obtain ⟨phase, h⟩ := h
  cases h with
  | fresh h => exact absurd h.answers hne
  | adding hidle | sending hidle | skipped hidle => exact absurd hidle.answers hne
  | gathering hg => exact ⟨_, _, hg⟩

theorem Inv.gathering_of_requests (h : r.Inv cfg) (hne : r.requests ≠ []) :
    ∃ push slices, r.Gathering cfg push slices := by
  obtain ⟨phase, h⟩ := h
  cases h with
  | fresh h => exact absurd h.requests hne
  | adding hidle | sending hidle | skipped hidle => exact absurd hidle.requests hne
  | gathering hg => exact ⟨_, _, hg⟩

theorem Gathering.log_head (h : r.Gathering cfg push slices) :
    r.slot.log.head? = some (.sliced push slices) := by
  rw [h.log]
  rfl

theorem Gathering.unique {push' : Bool} {slices' : List (Option (KVPairs V))}
    (h : r.Gathering cfg push slices) (h' : r.Gathering cfg push' slices') :
    push' = push ∧ slices' = slices := by
  have heq := h'.log_head.symm.trans h.log_head
  cases heq
  exact ⟨rfl, rfl⟩

def AnswersKind (cfg : Config) (r : Request V) : Prop :=
  ∀ m ∈ r.answers, ∀ push slices, r.Gathering cfg push slices → m.push = push

theorem AnswersKind.step [Zero V] (h : r.AnswersKind cfg) (hinv : r.Inv cfg)
    (hstep : Request.Step cfg Issues Answers r r') : r'.AnswersKind cfg := by
  intro m hm push slices hg'
  have hold : m ∈ r.answers → m.push = push := fun hmem => by
    obtain ⟨push₀, slices₀, hg⟩ := hinv.gathering_of_answers (List.ne_nil_of_mem hmem)
    obtain ⟨rfl, rfl⟩ := hg'.unique (hg.step hstep)
    exact h m hmem _ _ hg
  cases hstep with
  | @answer pre post msg res hreq hans hres hserver hpush =>
    rcases List.mem_append.mp hm with hm | hm
    · exact hold hm
    · rw [List.mem_singleton.mp hm, hpush]
      have hmem : msg ∈ r.requests := hreq ▸ List.mem_append_cons_self
      obtain ⟨push₀, slices₀, hg⟩ := hinv.gathering_of_requests (List.ne_nil_of_mem hmem)
      obtain ⟨rfl, rfl⟩ := hg'.unique (hg.answer hreq hres hserver hpush)
      exact (hg.requests msg hmem).1
  | _ => exact hold hm

theorem Gathering.answered_of_wait (h : r.Gathering cfg push slices)
    (hwait : r.tracker = some (num, num)) :
    (r.answers.map Message.server).Perm ((numbered slices).map Prod.fst) := by
  obtain ⟨c, hc, hsum⟩ := h.tracker
  rw [hwait] at hc
  cases hc
  have hzero : r.outstanding = 0 := by omega
  unfold outstanding at hzero
  have hunsent : r.unsent = [] := List.length_eq_zero_iff.mp (by omega)
  have hreq : r.requests = [] := List.length_eq_zero_iff.mp (by omega)
  have hservers := h.servers
  rw [hunsent, hreq] at hservers
  simpa using hservers

theorem AtCallback.mono {slot : Slot V} {pc : Option CallbackPc} (h : AtCallback o P slot pc)
    (hP : slot.Filled o P → slot.Filled o P') : AtCallback o P' slot pc := by
  unfold AtCallback at h ⊢
  split at h
  · exact h
  · exact h
  · exact hP h
  · exact hP h

theorem Serves.mono (h : r.Serves o P) (hP : ∀ k v, P k v → P' k v) : r.Serves o P' := by
  have hfill : r.slot.Filled o P → r.slot.Filled o P' := fun hf hpush => (hf hpush).imp hP
  obtain ⟨phase, h, haccords⟩ := h
  refine ⟨phase, h, ?_⟩
  cases phase with
  | fresh | adding | sending => exact haccords
  | skipped => exact ⟨haccords.1, haccords.2.mono hfill⟩
  | gathering =>
    obtain ⟨hpush, hg⟩ := haccords
    refine ⟨hpush, hg.sliced, hg.pending, fun hc => hfill (hg.filled hc), fun m hm hp => ?_⟩
    obtain ⟨part, vals, hpart, hvals, hdata⟩ := hg.answers m hm hp
    exact ⟨part, vals, hpart, hvals.imp hP, hdata⟩

theorem not_wait_of_zero (htracker : r.tracker = some (cfg.numServers, 0)) :
    r.tracker ≠ some (num, num) := by
  intro hwait
  obtain ⟨h₁, h₂⟩ := Prod.mk.inj (Option.some.inj (htracker.symm.trans hwait))
  have hpos := cfg.servers_pos
  omega

theorem Slot.Pending.filled {slot : Slot V} (h : slot.Pending o) (hkeys : o.kvs.keys = []) :
    slot.Filled o P := by
  intro hpush
  have hout := h.out
  obtain ⟨push, kvs, callback, out, hvalid⟩ := o
  cases hvalid with
  | push => cases hpush
  | @pull keys vals _ hvals =>
    have hkeys : keys = [] := hkeys
    subst hkeys
    have hnil : vals = [] := hvals.elim id List.length_eq_zero_iff.mp
    subst hnil
    rw [hout]
    exact .nil

theorem Serves.filled_of_wait (h : r.Serves o P) (hwait : r.tracker = some (num, num)) :
    r.slot.Filled o P := by
  obtain ⟨phase, h, haccords⟩ := h
  cases h with
  | fresh => exact haccords.elim
  | adding _ _ htracker | sending _ _ htracker => exact (not_wait_of_zero htracker hwait).elim
  | @skipped push slices pc =>
    obtain ⟨hkeys, hat⟩ := haccords
    rcases pc with _ | _ | _ | _
    · exact hat
    · exact Slot.Pending.filled hat hkeys
    · exact Slot.Pending.filled hat hkeys
    · exact hat
  | gathering hg =>
    refine haccords.2.filled fun hc => hc.1 ?_
    obtain ⟨c, hc, hsum⟩ := hg.tracker
    cases hwait.symm.trans hc
    have hzero : r.outstanding = 0 := by omega
    rw [hg.log, hzero, receiver_of_outstanding_zero hzero]
    simp [Receiver.runs]

end Request

namespace Cluster

variable {s : Cluster V} {i : ℕ} {x : ℕ × ℕ}

/-- The pushes that the server `i` has handled, in this order. -/
def handled (s : Cluster V) (i : ℕ) : List (ℕ × ℕ) :=
  (s.answers.filter fun m => m.push ∧ m.server = i).map fun m => (m.worker, m.timestamp)

theorem mem_handled : x ∈ s.handled i ↔
    ∃ m ∈ (s.request x.1 x.2).answers, m.push = true ∧ m.server = i := by
  constructor
  · intro hx
    obtain ⟨m, hm, rfl⟩ := List.mem_map.mp hx
    obtain ⟨hmem, hpush⟩ := List.mem_filter.mp hm
    exact ⟨m, List.mem_filter.mpr ⟨hmem, decide_eq_true ⟨rfl, rfl⟩⟩, of_decide_eq_true hpush⟩
  · rintro ⟨m, hm, hpush⟩
    obtain ⟨hmem, hof⟩ := List.mem_filter.mp hm
    obtain ⟨hworker, hts⟩ := of_decide_eq_true hof
    exact List.mem_map.mpr
      ⟨m, List.mem_filter.mpr ⟨hmem, decide_eq_true hpush⟩, Prod.ext hworker hts⟩

end Cluster

/-! ## What has been pushed -/

variable [AddCommMonoid V]

/-- What a push sends to the server `i` for the key `k`. -/
def Event.pushed (i k : ℕ) : Event V → V
  | .sliced true slices => (((numbered slices).filter (·.1 = i)).map fun x => x.2.valueAt k).sum
  | _ => 0

def Slot.pushed (i k : ℕ) (slot : Slot V) : V := (slot.log.map (Event.pushed i k)).sum

theorem Request.Gathering.pushed_eq {r : Request V} {push : Bool}
    {slices : List (Option (KVPairs V))} (h : r.Gathering cfg push slices) (i k : ℕ) :
    r.slot.pushed i k = Event.pushed i k (.sliced push slices) := by
  have hruns : ((r.receiver.runs r.outstanding).map (Event.pushed i k)).sum = 0 := by
    refine List.sum_eq_zero fun x hx => ?_
    obtain ⟨e, he, rfl⟩ := List.mem_map.mp hx
    unfold Receiver.runs at he
    split at he
    · rw [List.mem_singleton.mp he]
      rfl
    all_goals
      split_ifs at he
      · simp only [List.mem_cons, List.not_mem_nil, or_false] at he
        rcases he with rfl | rfl <;> rfl
      · exact absurd he List.not_mem_nil
  rw [Slot.pushed, h.log, List.map_cons, List.sum_cons, hruns, add_zero]

namespace Cluster

variable {s s' : Cluster V} {a : Action V} {i k : ℕ} {x : ℕ × ℕ}

/-- What the push with the rank and the timestamp `x` sends to the server `i` for `k`. -/
def pushed (s : Cluster V) (i k : ℕ) (x : ℕ × ℕ) : V := ((s.worker x.1).slots x.2).pushed i k

theorem gathering_step {rank ts : ℕ} {push : Bool} {slices : List (Option (KVPairs V))}
    (hg : (s.request rank ts).Gathering cfg push slices) (hstep : step cfg s a = .ok s') :
    (s'.request rank ts).Gathering cfg push slices := by
  rcases step_moves hstep with hsame | ⟨rank', ts', hmove, hframe⟩
  · rw [hsame]
    exact hg
  · by_cases heq : (rank, ts) = (rank', ts')
    · cases heq
      exact hg.step hmove
    · rw [hframe _ _ heq]
      exact hg

theorem pushed_step (hinv : ∀ rank ts, (s.request rank ts).Inv cfg)
    (hstep : step cfg s a = .ok s') (hx : x ∈ s.handled i) (j : ℕ) :
    s'.pushed j k x = s.pushed j k x := by
  obtain ⟨m, hm, -⟩ := mem_handled.mp hx
  obtain ⟨push, slices, hg⟩ := (hinv x.1 x.2).gathering_of_answers (List.ne_nil_of_mem hm)
  exact ((gathering_step hg hstep).pushed_eq j k).trans (hg.pushed_eq j k).symm

theorem step_store (hstep : step cfg s a = .ok s') (ha : a.Valid cfg) :
    s'.store = s.store ∧ s'.answers = s.answers ∨
      ∃ msg store res, msg ∈ s.net ∧ msg.request = true ∧
        msg.process (s.store msg.server) = .ok (store, res) ∧
        s'.store = Function.update s.store msg.server store ∧ s'.answers = s.answers ++ [res] := by
  cases a with
  | push | pull =>
    cases hstep
    exact .inl ⟨rfl, rfl⟩
  | respond => cases ha
  | receive =>
    obtain ⟨w, -, hstep⟩ := bind_eq_ok.mp hstep
    cases hstep
    exact .inl ⟨rfl, rfl⟩
  | advance j =>
    unfold Ps.step at hstep
    dsimp only at hstep
    split at hstep
    · cases hstep
      exact .inl ⟨rfl, rfl⟩
    · obtain ⟨y, -, hstep⟩ := bind_eq_ok.mp hstep
      cases hstep
      exact .inl ⟨rfl, rfl⟩
  | deliver j =>
    unfold Ps.step at hstep
    dsimp only at hstep
    split at hstep
    · cases hstep
      exact .inl ⟨rfl, rfl⟩
    · split_ifs at hstep <;> cases hstep <;> exact .inl ⟨rfl, rfl⟩
  | handle j =>
    unfold Ps.step at hstep
    dsimp only at hstep
    split at hstep
    · cases hstep
      exact .inl ⟨rfl, rfl⟩
    · next msg hmsg =>
      split_ifs at hstep with hreq
      · obtain ⟨⟨store, res⟩, hprocess, hstep⟩ := bind_eq_ok.mp hstep
        cases hstep
        exact .inr ⟨msg, store, res, List.mem_of_getElem? hmsg, hreq, hprocess, rfl, rfl⟩
      · cases hstep
        exact .inl ⟨rfl, rfl⟩

/-- What a server holds for one of its keys is what the pushes it has handled sent for it. -/
def Applied (cfg : Config) (s : Cluster V) : Prop :=
  ∀ i < cfg.numServers, ∀ k, (serverRange cfg i).Contains k →
    s.store i k = ((s.handled i).map (s.pushed i k)).sum

theorem handled_step (hsafe : ∀ rank ts, (s.request rank ts).Safe cfg) (ha : a.Valid cfg)
    (hstep : step cfg s a = .ok s') :
    s'.store = s.store ∧ (∀ i, s'.handled i = s.handled i) ∨
      ∃ msg ∈ s.net, msg.request = true ∧
        s'.store = Function.update s.store msg.server (fun key => s.store msg.server key +
          if msg.push then (msg.data.getD .empty).valueAt key else 0) ∧
        ∀ i, s'.handled i = s.handled i ++
          if msg.push ∧ msg.server = i then [(msg.worker, msg.timestamp)] else [] := by
  rcases step_store hstep ha with ⟨hstore, hsame⟩ | ⟨msg, store, res, hmem, hreq, hp, hstore, hnew⟩
  · refine .inl ⟨hstore, fun i => ?_⟩
    rw [handled, handled, hsame]
  · obtain ⟨res', hp'⟩ := process_ok hsafe hmem hreq (s.store msg.server)
    cases hp.symm.trans hp'
    refine .inr ⟨msg, hmem, hreq, hstore, fun i => ?_⟩
    rw [handled, handled, hnew, List.filter_append, List.map_append]
    congr 1
    by_cases hpush : msg.push ∧ msg.server = i <;> simp [Message.response, hpush]

theorem handled_grows (hsafe : ∀ rank ts, (s.request rank ts).Safe cfg) (ha : a.Valid cfg)
    (hstep : step cfg s a = .ok s') (i : ℕ) : s.handled i <+: s'.handled i := by
  rcases handled_step hsafe ha hstep with ⟨-, hsame⟩ | ⟨msg, -, -, -, hnew⟩
  · exact (hsame i).symm ▸ List.prefix_refl (s.handled i)
  · exact (hnew i).symm ▸ List.prefix_append (s.handled i) _

theorem nodup_handled_step (hinv : ∀ rank ts, (s.request rank ts).Inv cfg)
    (hsafe : ∀ rank ts, (s.request rank ts).Safe cfg) (ha : a.Valid cfg)
    (hstep : step cfg s a = .ok s') (h : (s.handled i).Nodup) : (s'.handled i).Nodup := by
  rcases handled_step hsafe ha hstep with ⟨-, hsame⟩ | ⟨msg, hmem, hreq, -, hnew⟩
  · rw [hsame]
    exact h
  · rw [hnew]
    split_ifs with hpush
    · rw [List.nodup_append]
      refine ⟨h, List.nodup_singleton _, fun x hx y hy => ?_⟩
      rw [List.mem_singleton.mp hy]
      rintro rfl
      -- the request would have been answered by this server
      have hreqs := mem_requests hmem hreq
      obtain ⟨push, slices, hg⟩ := (hinv _ _).gathering_of_requests (List.ne_nil_of_mem hreqs)
      obtain ⟨m, hm, -, hserver⟩ := mem_handled.mp hx
      have hnodup := hg.servers.nodup_iff.mpr (nodup_numbered slices)
      have hdisj := (List.nodup_append.mp (List.nodup_append.mp hnodup).1).2.2
      exact hdisj _ (List.mem_map_of_mem hm) _ (List.mem_map_of_mem hreqs)
        (hserver.trans hpush.2.symm)
    · rw [List.append_nil]
      exact h

theorem Applied.step (h : s.Applied cfg) (hinv : ∀ rank ts, (s.request rank ts).Inv cfg)
    (hsafe : ∀ rank ts, (s.request rank ts).Safe cfg) (ha : a.Valid cfg)
    (hstep : step cfg s a = .ok s') : s'.Applied cfg := by
  intro i hi k hk
  have hkept : (s.handled i).map (s'.pushed i k) = (s.handled i).map (s.pushed i k) :=
    List.map_congr_left fun x hx => pushed_step hinv hstep hx i
  rcases handled_step hsafe ha hstep with ⟨hstore, hsame⟩ | ⟨msg, hmem, hreq, hstore, hnew⟩
  · rw [hsame, hkept, hstore]
    exact h i hi k hk
  · rw [hnew, List.map_append, List.sum_append, hkept, hstore, ← h i hi k hk]
    by_cases hserver : msg.server = i
    · subst hserver
      rw [Function.update_self]
      congr 1
      cases hpush : msg.push with
      | false => simp
      | true =>
        -- the message is the slice that was cut for this server
        have hreqs := mem_requests hmem hreq
        obtain ⟨push, slices, hg⟩ :=
          (hinv _ _).gathering_of_requests (List.ne_nil_of_mem hreqs)
        obtain ⟨rfl, part, hpart, hdata⟩ := hg.requests msg hreqs
        have hvalue : s'.pushed msg.server k (msg.worker, msg.timestamp) = part.valueAt k := by
          refine ((gathering_step hg hstep).pushed_eq _ _).trans ?_
          rw [hpush, Event.pushed, filter_fst_of_mem (nodup_numbered slices) hpart]
          simp
        rw [if_pos rfl, if_pos ⟨rfl, rfl⟩, hdata, KVPairs.valueAt_toData, List.map_singleton,
          List.sum_singleton, hvalue]
    · rw [Function.update_of_ne (Ne.symm hserver)]
      simp [hserver]

end Cluster

/-! ## Requests that are waited for -/

namespace Request

variable {o : Order cfg V} {P : ℕ → V → Prop} {r r' : Request V} {num : ℕ}
  {Issues : Bool → KVPairs V → Option Callback → Buffers V → Prop}
  {Answers : Message V → Message V → Prop}

theorem Serves.answered_of_wait (h : r.Serves o P) (hkind : r.AnswersKind cfg)
    (hpush : o.push = true) (hwait : r.tracker = some (num, num)) {k : ℕ}
    (hk : k ∈ o.kvs.keys) : ∃ i < cfg.numServers, (serverRange cfg i).Contains k ∧
      (∃ m ∈ r.answers, m.push = true ∧ m.server = i) ∧ r.slot.pushed i k = o.kvs.valueAt k := by
  obtain ⟨phase, h, haccords⟩ := h
  cases h with
  | fresh => exact haccords.elim
  | adding _ _ htracker | sending _ _ htracker => exact (not_wait_of_zero htracker hwait).elim
  | skipped =>
    rw [haccords.1] at hk
    exact absurd hk List.not_mem_nil
  | @gathering push slices hg =>
    obtain ⟨rfl, hgathers⟩ := haccords
    have hsliced := isSliced_of_eq hgathers.sliced
    rw [← hsliced.keys_eq] at hk
    obtain ⟨keys, hkeys, hk⟩ := List.mem_flatten.mp hk
    obtain ⟨⟨i, part⟩, hpart, rfl⟩ := List.mem_map.mp hkeys
    have hslice := hsliced.slice i part hpart
    have hcontains := hslice.mem k hk
    have hserver : i ∈ r.answers.map Message.server :=
      (hg.answered_of_wait hwait).mem_iff.mpr (List.mem_map.mpr ⟨_, hpart, rfl⟩)
    obtain ⟨m, hm, rfl⟩ := List.mem_map.mp hserver
    have hmpush : m.push = true := (hkind m hm _ _ hg).trans hpush
    refine ⟨m.server, hslice.server, hcontains, ⟨m, hm, hmpush, rfl⟩, ?_⟩
    rw [hg.pushed_eq, hpush]
    exact hsliced.value _ hslice.server k hcontains

end Request

/-! ## Runs -/

namespace Cluster

variable {s s' s₀ : Cluster V} {a : Action V} {rank ts : ℕ}

structure Consistent (cfg : Config) (s : Cluster V) : Prop where
  serving : s.Serving cfg
  inv : ∀ rank ts, (s.request rank ts).Inv cfg
  kind : ∀ rank ts, (s.request rank ts).AnswersKind cfg
  applied : s.Applied cfg
  nodup : ∀ i, (s.handled i).Nodup

theorem request_step {Q : Request V → Prop} (hstep : step cfg s a = .ok s')
    (hQ : ∀ r', Request.Step cfg a.Issues (s.Answers a) (s.request rank ts) r' → Q r')
    (h : Q (s.request rank ts)) : Q (s'.request rank ts) := by
  rcases step_moves hstep with hsame | ⟨rank', ts', hmove, hframe⟩
  · rw [hsame]
    exact h
  · by_cases heq : (rank, ts) = (rank', ts')
    · cases heq
      exact hQ _ hmove
    · rw [hframe _ _ heq]
      exact h

theorem Consistent.step (h : s.Consistent cfg) (hz : cfg.isWorkerZpull = false)
    (ha : a.Valid cfg) (hstep : step cfg s a = .ok s') : s'.Consistent cfg where
  serving := h.serving.step hz ha hstep
  inv rank ts := request_step hstep (fun _ hmove => (h.inv rank ts).step hmove) (h.inv rank ts)
  kind rank ts := request_step hstep (fun _ hmove => (h.kind rank ts).step (h.inv rank ts) hmove)
    (h.kind rank ts)
  applied := h.applied.step h.inv (h.serving.safe hz) ha hstep
  nodup i := nodup_handled_step h.inv (h.serving.safe hz) ha hstep (h.nodup i)

theorem consistent_of_reachable (hz : cfg.isWorkerZpull = false)
    (h : (machine cfg).Reachable (fun _ a => a.Valid cfg) s) : s.Consistent cfg := by
  refine h.invariant ⟨Serving.init, request_init, ?_, ?_, ?_⟩
    fun s a s' hs ha hstep => hs.step hz ha hstep
  · intro rank ts m hm
    exact absurd hm List.not_mem_nil
  · intro i _ k _
    rfl
  · intro i
    exact List.nodup_nil

/-- What a pull that is called in `s₀` may get for a key in `s`. -/
def Reads (cfg : Config) (s₀ s : Cluster V) (k : ℕ) (v : V) : Prop :=
  ∃ i < cfg.numServers, (serverRange cfg i).Contains k ∧
    ∃ l, s₀.handled i <+: l ∧ l <+: s.handled i ∧ v = (l.map (s.pushed i k)).sum

theorem Reads.step {k : ℕ} {v : V} (h : Reads cfg s₀ s k v) (hs : s.Consistent cfg)
    (hz : cfg.isWorkerZpull = false) (ha : a.Valid cfg) (hstep : step cfg s a = .ok s') :
    Reads cfg s₀ s' k v := by
  obtain ⟨i, hi, hk, l, hl₀, hl, rfl⟩ := h
  refine ⟨i, hi, hk, l, hl₀, hl.trans (handled_grows (hs.serving.safe hz) ha hstep i), ?_⟩
  congr 1
  exact (List.map_congr_left fun x hx => pushed_step hs.inv hstep (hl.subset hx) i).symm

theorem Consistent.holds (h : s.Consistent cfg) (hgrows : ∀ i, s₀.handled i <+: s.handled i) :
    s.Holds cfg (Reads cfg s₀ s) := fun i hi k hk =>
  ⟨i, hi, hk, s.handled i, hgrows i, List.prefix_refl _, h.applied i hi k hk⟩

theorem Consistent.issue_serves (h : s.Consistent cfg) (rank : ℕ) (o : Order cfg V)
    (P : ℕ → V → Prop) :
    ((s.issue cfg rank o.push o.kvs o.callback o.out).request rank
      (s.worker rank).tracker.length).Serves o P := by
  have hfresh : (s.request rank (s.worker rank).tracker.length).Fresh := by
    refine (h.serving rank _).resolve_right ?_
    rintro ⟨o', ho'⟩
    exact ho'.tracker_ne (List.getElem?_eq_none le_rfl)
  have hmove : Moves (Request.Step cfg (fun push kvs callback out =>
      push = o.push ∧ kvs = o.kvs ∧ callback = o.callback ∧ out = o.out) fun _ _ => False) s
      (s.issue cfg rank o.push o.kvs o.callback o.out) rank _ :=
    issue_moves ⟨rfl, rfl, rfl, rfl⟩ rank
  obtain ⟨_, _, _, _, ⟨rfl, rfl, rfl, rfl⟩, hserves⟩ := hfresh.serves hmove.step
  exact hserves o.valid

theorem Consistent.handled_of_wait (h : s.Consistent cfg) {o : Order cfg V} {P : ℕ → V → Prop}
    (hserves : (s.request rank ts).Serves o P)
    (hpush : o.push = true) (hwait : (s.worker rank).waitCondition ts) {k : ℕ}
    (hk : k ∈ o.kvs.keys) : ∃ i < cfg.numServers, (serverRange cfg i).Contains k ∧
      (rank, ts) ∈ s.handled i ∧ s.pushed i k (rank, ts) = o.kvs.valueAt k := by
  obtain ⟨num, hnum⟩ := hwait
  obtain ⟨i, hi, hcontains, hm, hvalue⟩ :=
    hserves.answered_of_wait (h.kind rank ts) hpush hnum hk
  exact ⟨i, hi, hcontains, mem_handled.mpr hm, hvalue⟩

section Run

variable (hz : cfg.isWorkerZpull = false)
include hz

theorem Consistent.run_push {o : Order cfg V} (h : s.Consistent cfg)
    (hserves : (s.request rank ts).Serves o fun _ _ => True)
    (hrun : (machine cfg).Steps (fun _ a => a.Valid cfg) s s') :
    s'.Consistent cfg ∧ (s'.request rank ts).Serves o fun _ _ => True := by
  refine hrun.invariant (P := fun s => s.Consistent cfg ∧
    (s.request rank ts).Serves o fun _ _ => True) ⟨h, hserves⟩ ?_
  rintro s a s' ⟨hs, hserves⟩ ha hstep
  have hholds : s.Holds cfg fun _ _ => True := fun _ _ _ _ => trivial
  exact ⟨hs.step hz ha hstep, serves_step hz ha hholds hserves hstep⟩

theorem Consistent.run_pull {o : Order cfg V} (h : s.Consistent cfg)
    (hgrows : ∀ i, s₀.handled i <+: s.handled i)
    (hserves : (s.request rank ts).Serves o (Reads cfg s₀ s))
    (hrun : (machine cfg).Steps (fun _ a => a.Valid cfg) s s') :
    s'.Consistent cfg ∧ (s'.request rank ts).Serves o (Reads cfg s₀ s') := by
  refine (hrun.invariant (P := fun s => s.Consistent cfg ∧ (∀ i, s₀.handled i <+: s.handled i) ∧
    (s.request rank ts).Serves o (Reads cfg s₀ s)) ⟨h, hgrows, hserves⟩ ?_).imp_right And.right
  rintro s a s' ⟨hs, hgrows, hserves⟩ ha hstep
  refine ⟨hs.step hz ha hstep, fun i => ?_, ?_⟩
  · exact (hgrows i).trans (handled_grows (hs.serving.safe hz) ha hstep i)
  · refine (serves_step hz ha (hs.holds hgrows) hserves hstep).mono fun k v hread => ?_
    exact hread.step hs hz ha hstep

theorem Consistent.run_pushed {i k : ℕ} {x : ℕ × ℕ} (h : s.Consistent cfg) (hx : x ∈ s.handled i)
    (hrun : (machine cfg).Steps (fun _ a => a.Valid cfg) s s') :
    s'.pushed i k x = s.pushed i k x := by
  refine (hrun.invariant (P := fun m => m.Consistent cfg ∧ x ∈ m.handled i ∧
    m.pushed i k x = s.pushed i k x) ⟨h, hx, rfl⟩ ?_).2.2
  rintro m a m' ⟨hm, hx, heq⟩ ha hstep
  exact ⟨hm.step hz ha hstep, (handled_grows (hm.serving.safe hz) ha hstep i).subset hx,
    (pushed_step hm.inv hstep hx i).trans heq⟩

end Run

end Cluster

open Cluster

def firstPush : KVPairs ℤ := ⟨[1, 2 ^ 63], [3, 4], []⟩

def firstPushRun : List (Action ℤ) :=
  List.replicate 5 (.advance 0) ++ [.handle 0, .handle 0, .deliver 0, .deliver 0] ++
    List.replicate 12 (.receive 0)

def overlapRun : List (Action ℤ) :=
  [.advance 0, .advance 0, .push 0 ⟨[1], [10], []⟩ false] ++ List.replicate 4 (.advance 1) ++
    [.handle 0] ++ List.replicate 3 (.advance 0) ++
    [.handle 1, .handle 1, .deliver 0, .deliver 0, .deliver 0] ++ List.replicate 12 (.receive 1)

end Ps
