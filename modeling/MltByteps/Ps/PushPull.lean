import MltByteps.Ps.Service
import Mathlib.Tactic.Abel

/-! Pushes and pulls of well-formed requests at servers with the default handle. What a server
holds for a key and what is on its way there add up to all that was pushed for the key, so a
pull that is made after the pushes were handled gets their sums. -/

namespace Ps
open Lists

variable {V : Type} {cfg : Config}

def Action.Valid (cfg : Config) : Action V → Prop
  | .push _ kvs _ =>
    ValidKeys cfg kvs.keys ∧ kvs.vals.length = kvs.keys.length ∧ kvs.lens = []
  | .pull _ keys out =>
    ValidKeys cfg keys ∧ out.lens = none ∧ (out.vals = [] ∨ out.vals.length = keys.length)
  | .respond _ _ => False
  | _ => True

def Action.IsPush : Action V → Prop
  | .push _ _ _ => True
  | _ => False

instance (keys : List ℕ) : Decidable (ValidKeys cfg keys) :=
  decidable_of_iff
    (keys.Pairwise (· < ·) ∧ ∀ k ∈ keys, k < kMaxKey / cfg.numServers * cfg.numServers)
    ⟨fun h => ⟨h.1, h.2⟩, fun h => ⟨h.sorted, h.lt⟩⟩

instance : DecidablePred (Action.Valid (V := V) cfg) := fun a => by
  cases a <;> unfold Action.Valid <;> infer_instance

instance : DecidablePred (Action.IsPush (V := V)) := fun a => by
  cases a <;> unfold Action.IsPush <;> infer_instance

theorem Action.Valid.call {a : Action V} (h : a.Valid cfg) {push : Bool} {kvs : KVPairs V}
    {callback : Option Callback} {out : Buffers V} (hissue : a.Issues push kvs callback out) :
    ValidCall cfg push kvs callback out := by
  cases a with
  | push rank kvs' callback' =>
    obtain ⟨rfl, rfl, rfl, rfl⟩ := hissue
    obtain ⟨keys, vals, lens⟩ := kvs
    obtain ⟨hkeys, hlen, hlens⟩ := h
    dsimp only at hlens
    subst hlens
    refine .push hkeys hlen fun keys' he => ?_
    cases callback' <;> cases he
  | pull rank keys out' =>
    obtain ⟨rfl, rfl, rfl, rfl⟩ := hissue
    obtain ⟨vals, lens⟩ := out
    obtain ⟨hkeys, hlens, hvals⟩ := h
    dsimp only at hlens
    subst hlens
    exact .pull hkeys hvals
  | _ => cases hissue

variable [AddCommMonoid V]

/-! ## No check fails -/

namespace Cluster

/-- The servers hold values that `P` allows. -/
def Holds (cfg : Config) (P : ℕ → V → Prop) (s : Cluster V) : Prop :=
  ∀ i < cfg.numServers, ∀ k, (serverRange cfg i).Contains k → P k (s.store i k)

theorem Holds.answering {P : ℕ → V → Prop} {s : Cluster V} {a : Action V} (h : s.Holds cfg P)
    (ha : a.Valid cfg) : Request.Answering cfg P (s.Answers a) := by
  intro kvs msg res part hans hpush hdata hslice
  cases a with
  | handle i =>
    obtain ⟨-, store, hprocess⟩ := hans
    rw [process_pull hpush hdata hslice.lens] at hprocess
    cases hprocess
    refine ⟨part.keys.map (s.store msg.server), ?_, if_neg hslice.nonempty⟩
    rw [List.forall₂_map_right_iff]
    exact List.forall₂_same.mpr fun k hk => h _ hslice.server k (hslice.mem k hk)
  | respond => cases ha
  | _ => cases hans

def Serving (cfg : Config) (s : Cluster V) : Prop := ∀ rank ts,
  (s.request rank ts).Fresh ∨
    ∃ o : Order cfg V, (s.request rank ts).Serves o fun _ _ => True

theorem Serving.init : (Cluster.init : Cluster V).Serving cfg :=
  fun _ _ => .inl ⟨⟨rfl, rfl, rfl, rfl, rfl, rfl⟩, rfl, rfl, rfl, rfl⟩

variable {s s' : Cluster V} {a : Action V}

theorem serves_step {P : ℕ → V → Prop} {rank ts : ℕ} {o : Order cfg V}
    (hz : cfg.isWorkerZpull = false) (ha : a.Valid cfg) (hP : s.Holds cfg P)
    (h : (s.request rank ts).Serves o P) (hstep : step cfg s a = .ok s') :
    (s'.request rank ts).Serves o P := by
  rcases step_moves hstep with hsame | ⟨rank', ts', hmove, hframe⟩
  · rw [hsame]
    exact h
  · by_cases heq : (rank, ts) = (rank', ts')
    · cases heq
      exact h.step hz (hP.answering ha) hmove
    · rw [hframe rank ts heq]
      exact h

theorem Serving.step (hz : cfg.isWorkerZpull = false) (h : s.Serving cfg) (ha : a.Valid cfg)
    (hstep : step cfg s a = .ok s') : s'.Serving cfg := by
  intro rank ts
  rcases h rank ts with hfresh | ⟨o, ho⟩
  · rcases step_moves hstep with hsame | ⟨rank', ts', hmove, hframe⟩
    · rw [hsame]
      exact .inl hfresh
    · by_cases heq : (rank, ts) = (rank', ts')
      · cases heq
        obtain ⟨_, _, _, _, hissue, hserves⟩ := hfresh.serves hmove
        exact .inr ⟨_, hserves (ha.call hissue)⟩
      · rw [hframe rank ts heq]
        exact .inl hfresh
  · exact .inr ⟨o, serves_step hz ha (fun _ _ _ _ => trivial) ho hstep⟩

theorem Serving.safe (hz : cfg.isWorkerZpull = false) (h : s.Serving cfg) (rank ts : ℕ) :
    (s.request rank ts).Safe cfg := by
  rcases h rank ts with hfresh | ⟨o, ho⟩
  · exact hfresh.safe
  · exact ho.safe hz

omit [AddCommMonoid V] in
theorem call_mem_request {t : Thread V} (ht : t ∈ s.threads) :
    t.call ∈ (s.request t.worker t.timestamp).calls :=
  List.mem_map_of_mem (List.mem_filter.mpr ⟨ht, by simp [Thread.Of]⟩)

omit [AddCommMonoid V] in
theorem mem_requests {m : Message V} (hm : m ∈ s.net) (hreq : m.request = true) :
    m ∈ (s.request m.worker m.timestamp).requests :=
  List.mem_filter.mpr ⟨hm, by simp [Message.Of, hreq]⟩

theorem process_ok (h : ∀ rank ts, (s.request rank ts).Safe cfg) {m : Message V} (hm : m ∈ s.net)
    (hreq : m.request = true) (store : ℕ → V) : ∃ res, m.process store =
      .ok (fun key => store key + if m.push then (m.data.getD .empty).valueAt key else 0,
        m.response res) := by
  obtain ⟨part, hdata, hlens, hlen⟩ := (h _ _).requests m (mem_requests hm hreq)
  rw [hdata, Option.getD_some]
  cases hpush : m.push with
  | false =>
    refine ⟨⟨part.keys, part.keys.map store, []⟩, ?_⟩
    rw [process_pull hpush hdata hlens]
    simp
  | true =>
    refine ⟨.empty, ?_⟩
    rw [process_push hpush hdata hlens (hlen hpush).symm]
    simp

theorem receive_ok {rank : ℕ} (h : ∀ ts, (s.request rank ts).Safe cfg) :
    ∃ w, (s.worker rank).receive cfg = .ok w := by
  unfold Worker.receive
  split
  · split
    · exact ⟨_, rfl⟩
    · exact ⟨_, rfl⟩
  · exact ⟨_, rfl⟩
  · split_ifs
    · exact ⟨_, rfl⟩
    · exact ⟨_, rfl⟩
  · rename_i msg pc hr
    have hview : (s.request rank msg.timestamp).receiver = .runCallback msg pc := by
      simp [Cluster.request, hr, Receiver.of, Receiver.message?]
    obtain ⟨x, hx⟩ := (h msg.timestamp).runInReceiver msg pc hview
    change (s.worker rank |>.slots msg.timestamp).runCallback cfg pc = _ at hx
    rw [hx]
    exact ⟨_, rfl⟩
  · exact ⟨_, rfl⟩

theorem advance_ok {t : Thread V} (h : (s.request t.worker t.timestamp).Safe cfg)
    (ht : t ∈ s.threads) :
    ∃ x, (s.worker t.worker).advance cfg t.worker t.timestamp t.call = .ok x := by
  have hcall := call_mem_request ht
  cases hc : t.call with
  | addCallback => exact ⟨_, rfl⟩
  | send push kvs =>
    obtain ⟨slices, hs, -⟩ := h.send push kvs (hc ▸ hcall)
    rw [Worker.advance, hs, ok_bind]
    dsimp only
    split_ifs
    · exact ⟨_, rfl⟩
    · exact ⟨_, rfl⟩
  | runCallback pc =>
    obtain ⟨x, hx⟩ := h.runInSend pc (hc ▸ hcall)
    change (s.worker t.worker |>.slots t.timestamp).runCallback cfg pc = _ at hx
    rw [Worker.advance, hx]
    exact ⟨_, rfl⟩
  | loop push slices => cases slices <;> exact ⟨_, rfl⟩

theorem step_ok (h : ∀ rank ts, (s.request rank ts).Safe cfg) (ha : a.Valid cfg) :
    ∃ s', step cfg s a = .ok s' := by
  cases a with
  | push => exact ⟨_, rfl⟩
  | pull => exact ⟨_, rfl⟩
  | respond => cases ha
  | deliver i =>
    unfold step
    dsimp only
    split
    · exact ⟨_, rfl⟩
    · split_ifs
      · exact ⟨_, rfl⟩
      · exact ⟨_, rfl⟩
  | handle i =>
    unfold step
    dsimp only
    split
    · exact ⟨_, rfl⟩
    · rename_i msg hmsg
      split_ifs with hreq
      · obtain ⟨res, hp⟩ := process_ok h (List.mem_of_getElem? hmsg) hreq (s.store msg.server)
        rw [hp]
        exact ⟨_, rfl⟩
      · exact ⟨_, rfl⟩
  | receive rank =>
    obtain ⟨w, hw⟩ := receive_ok (h rank)
    rw [step, hw]
    exact ⟨_, rfl⟩
  | advance i =>
    unfold step
    dsimp only
    split
    · exact ⟨_, rfl⟩
    · rename_i t ht
      obtain ⟨x, hx⟩ := advance_ok (h _ _) (List.mem_of_getElem? ht)
      rw [hx]
      exact ⟨_, rfl⟩

end Cluster

/-! ## What is pushed for a key -/

theorem sum_map_eraseIdx {α : Type} (f : α → V) {l : List α} {i : ℕ} {x : α}
    (h : l[i]? = some x) : (l.map f).sum = f x + ((l.eraseIdx i).map f).sum := by
  conv_lhs => rw [split_of_getElem? h]
  rw [List.eraseIdx_eq_take_drop_succ]
  simp only [List.map_append, List.map_cons, List.sum_append, List.sum_cons]
  abel

/-- What a call has still to send to the server `i` for the key `k`. -/
def Call.mass (i k : ℕ) : Call V → V
  | .addCallback true kvs _ => kvs.valueAt k
  | .send true kvs => kvs.valueAt k
  | .loop true slices => ((slices.filter (·.1 = i)).map fun x => x.2.valueAt k).sum
  | _ => 0

/-- What a message brings to the server `i` for the key `k`. -/
def Message.mass (i k : ℕ) (m : Message V) : V :=
  if m.request ∧ m.push ∧ m.server = i then (m.data.getD .empty).valueAt k else 0

theorem KVPairs.valueAt_toData (kvs : KVPairs V) (k : ℕ) :
    (kvs.toData.getD .empty).valueAt k = kvs.valueAt k := by
  unfold toData
  split_ifs with hnil
  · unfold valueAt
    rw [hnil]
    rfl
  · rfl

theorem Message.mass_response {m : Message V} (hm : m.request = false) (i k : ℕ) :
    m.mass i k = 0 := by
  simp [mass, hm]

theorem Worker.advance_mass {w w' : Worker V} {rank ts i k : ℕ} {c : Call V}
    {c' : Option (Call V)} {msg : Option (Message V)} (hi : i < cfg.numServers)
    (hk : (serverRange cfg i).Contains k)
    (hsend : ∀ push kvs slices, c = .send push kvs →
      defaultSlicer kvs (getServerKeyRanges cfg.numServers) = .ok slices → IsSliced cfg kvs slices)
    (h : w.advance cfg rank ts c = .ok (w', c', msg)) :
    (c'.toList.map (Call.mass i k)).sum + (msg.toList.map (Message.mass i k)).sum =
      c.mass i k := by
  cases c with
  | addCallback push kvs callback =>
    cases h
    cases push <;> simp [Call.mass]
  | send push kvs =>
    obtain ⟨slices, hs, h⟩ := bind_eq_ok.mp h
    have hvalue := (hsend push kvs slices rfl hs).value i hi k hk
    dsimp only at h
    split_ifs at h with hskip
    · cases h
      have hcount := length_numbered slices
      have hnil : numbered slices = [] := List.length_eq_zero_iff.mp (by omega)
      rw [hnil] at hvalue
      cases push <;> simp [Call.mass, ← hvalue]
    · cases h
      cases push <;> simp [Call.mass, ← hvalue]
  | runCallback pc =>
    obtain ⟨⟨pc', slot⟩, -, h⟩ := bind_eq_ok.mp h
    cases h
    cases pc' <;> simp [Call.mass]
  | loop push slices =>
    cases slices with
    | nil =>
      cases h
      cases push <;> simp [Call.mass]
    | cons x slices =>
      obtain ⟨j, kvs⟩ := x
      cases h
      cases push with
      | false => simp [Call.mass, Message.mass]
      | true =>
        by_cases hj : j = i
        · simp [Call.mass, Message.mass, hj, KVPairs.valueAt_toData, add_comm]
        · simp [Call.mass, Message.mass, hj]

namespace Cluster

/-- What the server `i` holds for `k` and what is on its way there is all that was pushed. -/
def Conserves (cfg : Config) (s : Cluster V) : Prop :=
  ∀ i < cfg.numServers, ∀ k, (serverRange cfg i).Contains k →
    s.store i k + (s.threads.map fun t => t.call.mass i k).sum +
      (s.net.map (Message.mass i k)).sum = (s.pushes.map (KVPairs.valueAt · k)).sum

variable {s s' : Cluster V} {a : Action V}

theorem Conserves.step (hsafe : ∀ rank ts, (s.request rank ts).Safe cfg) (h : s.Conserves cfg)
    (ha : a.Valid cfg) (hstep : step cfg s a = .ok s') : s'.Conserves cfg := by
  intro i hi k hk
  have hs := h i hi k hk
  cases a with
  | push rank kvs callback =>
    cases hstep
    simp only [issue, List.map_append, List.map_cons, List.map_nil, List.sum_append,
      List.sum_singleton, Call.mass, ← hs]
    abel
  | pull rank keys out =>
    cases hstep
    simpa [issue, Call.mass] using hs
  | respond => cases ha
  | receive rank =>
    obtain ⟨w, -, hstep⟩ := bind_eq_ok.mp hstep
    cases hstep
    exact hs
  | deliver j =>
    unfold Ps.step at hstep
    dsimp only at hstep
    split at hstep
    · cases hstep
      exact hs
    · rename_i msg hmsg
      split_ifs at hstep with hreq
      · cases hstep
        exact hs
      · cases hstep
        rw [sum_map_eraseIdx _ hmsg, Message.mass_response (by simpa using hreq), zero_add] at hs
        exact hs
  | handle j =>
    unfold Ps.step at hstep
    dsimp only at hstep
    split at hstep
    · cases hstep
      exact hs
    · rename_i msg hmsg
      split_ifs at hstep with hreq
      · obtain ⟨res, hp⟩ :=
          process_ok hsafe (List.mem_of_getElem? hmsg) hreq (s.store msg.server)
        rw [hp, ok_bind] at hstep
        cases hstep
        rw [sum_map_eraseIdx _ hmsg] at hs
        have hres : (msg.response res).mass i k = 0 := Message.mass_response rfl i k
        simp only [answer, List.map_append, List.sum_append, List.map_singleton,
          List.sum_singleton, hres, add_zero, ← hs]
        by_cases hserver : msg.server = i
        · subst hserver
          rw [Function.update_self]
          simp only [Message.mass, hreq, true_and, and_true]
          abel
        · rw [Function.update_of_ne (Ne.symm hserver)]
          simp [Message.mass, hserver]
      · cases hstep
        exact hs
  | advance j =>
    unfold Ps.step at hstep
    dsimp only at hstep
    split at hstep
    · cases hstep
      exact hs
    · rename_i t ht
      obtain ⟨⟨w, c, msg⟩, hadv, hstep⟩ := bind_eq_ok.mp hstep
      cases hstep
      have hmass := Worker.advance_mass hi hk (fun push kvs slices hc hs => by
        obtain ⟨slices', hs', hsliced⟩ :=
          (hsafe _ _).send push kvs (hc ▸ call_mem_request (List.mem_of_getElem? ht))
        rw [hs] at hs'
        cases hs'
        exact hsliced) hadv
      rw [sum_map_eraseIdx _ ht, ← hmass, List.eraseIdx_eq_take_drop_succ] at hs
      refine Eq.trans ?_ hs
      cases c <;> simp [setWorker] <;> abel

end Cluster

/-! ## After the pushes -/

def Call.Pushes : Call V → Prop
  | .addCallback push _ _ => push = true
  | .send push _ => push = true
  | .loop push slices => push = true ∧ slices ≠ []
  | .runCallback _ => False

omit [AddCommMonoid V] in
theorem Worker.advance_pushes [Zero V] {w w' : Worker V} {rank ts : ℕ} {c : Call V}
    {c' : Option (Call V)} {msg : Option (Message V)}
    (h : w.advance cfg rank ts c = .ok (w', c', msg)) (hc : ¬c.Pushes) :
    (∀ x, c' = some x → ¬x.Pushes) ∧ ∀ m, msg = some m → m.push = false := by
  cases c with
  | addCallback push kvs callback =>
    cases h
    exact ⟨fun _ hx => by cases hx; exact hc, fun _ hm => nomatch hm⟩
  | send push kvs =>
    obtain ⟨slices, -, h⟩ := bind_eq_ok.mp h
    dsimp only at h
    split_ifs at h
    · cases h
      exact ⟨fun _ hx => by cases hx; exact id, fun _ hm => nomatch hm⟩
    · cases h
      exact ⟨fun _ hx => by cases hx; exact fun he => hc he.1, fun _ hm => nomatch hm⟩
  | runCallback pc =>
    obtain ⟨⟨pc', slot⟩, -, h⟩ := bind_eq_ok.mp h
    cases h
    exact ⟨fun _ hx => by cases pc' <;> cases hx; exact id, fun _ hm => nomatch hm⟩
  | loop push slices =>
    cases slices with
    | nil =>
      cases h
      exact ⟨(fun _ hx => nomatch hx), fun _ hm => nomatch hm⟩
    | cons x slices =>
      cases h
      have hpush : push = false := by simpa [Call.Pushes] using hc
      exact ⟨fun _ hx => by cases hx; simp [Call.Pushes, hpush],
        fun _ hm => by cases hm; exact hpush⟩

namespace Cluster

structure PushesHandled (s : Cluster V) : Prop where
  threads : ∀ t ∈ s.threads, ¬t.call.Pushes
  net : ∀ m ∈ s.net, m.request = true → m.push = false

variable {s s' : Cluster V} {a : Action V}

theorem PushesHandled.store_eq (h : s.PushesHandled) (hs : s.Conserves cfg) :
    s.Holds cfg fun k v => v = (s.pushes.map (KVPairs.valueAt · k)).sum := by
  intro i hi k hk
  have hthreads : (s.threads.map fun t => t.call.mass i k).sum = 0 := by
    refine List.sum_eq_zero fun x hx => ?_
    obtain ⟨t, ht, rfl⟩ := List.mem_map.mp hx
    have hcall := h.threads t ht
    cases hc : t.call with
    | addCallback push => cases push <;> simp_all [Call.mass, Call.Pushes]
    | send push => cases push <;> simp_all [Call.mass, Call.Pushes]
    | runCallback => rfl
    | loop push => cases push <;> simp_all [Call.mass, Call.Pushes]
  have hnet : (s.net.map (Message.mass i k)).sum = 0 := by
    refine List.sum_eq_zero fun x hx => ?_
    obtain ⟨m, hm, rfl⟩ := List.mem_map.mp hx
    exact if_neg fun hmass => Bool.false_ne_true ((h.net m hm hmass.1).symm.trans hmass.2.1)
  have hsum := hs i hi k hk
  rwa [hthreads, hnet, add_zero, add_zero] at hsum

theorem PushesHandled.step (h : s.PushesHandled) (ha : a.Valid cfg) (hpush : ¬a.IsPush)
    (hstep : step cfg s a = .ok s') : s'.PushesHandled ∧ s'.pushes = s.pushes := by
  cases a with
  | push => exact absurd trivial hpush
  | pull rank keys out =>
    cases hstep
    refine ⟨⟨fun t ht => ?_, h.net⟩, rfl⟩
    rcases List.mem_append.mp ht with ht | ht
    · exact h.threads t ht
    · rw [List.mem_singleton.mp ht]
      exact Bool.false_ne_true
  | respond => cases ha
  | receive rank =>
    obtain ⟨w, -, hstep⟩ := bind_eq_ok.mp hstep
    cases hstep
    exact ⟨⟨h.threads, h.net⟩, rfl⟩
  | deliver j =>
    unfold Ps.step at hstep
    dsimp only at hstep
    split at hstep
    · cases hstep
      exact ⟨h, rfl⟩
    · split_ifs at hstep
      · cases hstep
        exact ⟨h, rfl⟩
      · cases hstep
        exact ⟨⟨h.threads, fun m hm => h.net m (List.mem_of_mem_eraseIdx hm)⟩, rfl⟩
  | handle j =>
    unfold Ps.step at hstep
    dsimp only at hstep
    split at hstep
    · cases hstep
      exact ⟨h, rfl⟩
    · split_ifs at hstep
      · obtain ⟨⟨store, res⟩, hprocess, hstep⟩ := bind_eq_ok.mp hstep
        cases hstep
        obtain ⟨data, rfl⟩ := process_response hprocess
        refine ⟨⟨h.threads, fun m hm => ?_⟩, rfl⟩
        rcases List.mem_append.mp hm with hm | hm
        · exact h.net m (List.mem_of_mem_eraseIdx hm)
        · rw [List.mem_singleton.mp hm]
          exact (nomatch ·)
      · cases hstep
        exact ⟨h, rfl⟩
  | advance j =>
    unfold Ps.step at hstep
    dsimp only at hstep
    split at hstep
    · cases hstep
      exact ⟨h, rfl⟩
    · rename_i t ht
      obtain ⟨⟨w, c, msg⟩, hadv, hstep⟩ := bind_eq_ok.mp hstep
      cases hstep
      obtain ⟨hcall, hmsg⟩ := Worker.advance_pushes hadv (h.threads t (List.mem_of_getElem? ht))
      refine ⟨⟨fun t' ht' => ?_, fun m hm => ?_⟩, rfl⟩
      · simp only [List.mem_append, Option.mem_toList, Option.map_eq_some_iff] at ht'
        rcases ht' with (ht' | ⟨x, hx, rfl⟩) | ht'
        · exact h.threads t' (List.mem_of_mem_take ht')
        · exact hcall x hx
        · exact h.threads t' (List.mem_of_mem_drop ht')
      · rcases List.mem_append.mp hm with hm | hm
        · exact h.net m hm
        · exact fun _ => hmsg m (by simpa using hm)

theorem serving_of_reachable (hz : cfg.isWorkerZpull = false)
    (h : (machine cfg).Reachable (fun _ a => a.Valid cfg) s) : s.Serving cfg ∧ s.Conserves cfg := by
  refine h.invariant (P := fun s => s.Serving cfg ∧ s.Conserves cfg) ⟨Serving.init, ?_⟩ ?_
  · intro i _ k _
    simp [machine, Cluster.init]
  · rintro s a s' ⟨hserving, hconserves⟩ ha hstep
    exact ⟨hserving.step hz ha hstep, hconserves.step (hserving.safe hz) ha hstep⟩

end Cluster

open Cluster

/-- After the pushes have been handled, no check fails while a pull is under way, and the buffer
is filled with the sums of all values that were pushed for its keys. -/
theorem pull_sums_pushes (hz : cfg.isWorkerZpull = false) {s₀ s₁ s : Cluster V} {rank : ℕ}
    {keys : List ℕ} {out : Buffers V}
    (h₀ : (machine cfg).Reachable (fun _ a => a.Valid cfg) s₀) (hpushes : s₀.PushesHandled)
    (hpull : (Action.pull rank keys out).Valid cfg)
    (h₁ : step cfg s₀ (.pull rank keys out) = .ok s₁)
    (hrun : (machine cfg).Steps (fun _ a => a.Valid cfg ∧ ¬a.IsPush) s₁ s) :
    (∀ a : Action V, a.Valid cfg → ∃ s', step cfg s a = .ok s') ∧
    (.returned ∈ (s.request rank (s₀.worker rank).tracker.length).slot.log ∨
        (s.request rank (s₀.worker rank).tracker.length).Finished →
      (s.request rank (s₀.worker rank).tracker.length).slot.out.vals =
        keys.map fun k => (s₀.pushes.map (KVPairs.valueAt · k)).sum) := by
  obtain ⟨hserving₀, hconserves₀⟩ := serving_of_reachable hz h₀
  have hholds₀ := hpushes.store_eq hconserves₀
  obtain ⟨hpushes₁, hsame₁⟩ := hpushes.step hpull id h₁
  have hserving₁ := hserving₀.step hz hpull h₁
  have hconserves₁ := hconserves₀.step (hserving₀.safe hz) hpull h₁
  -- The request is new, so the call is its first step.
  have hfresh : (s₀.request rank (s₀.worker rank).tracker.length).Fresh := by
    refine (hserving₀ rank _).resolve_right ?_
    rintro ⟨o, ho⟩
    exact ho.tracker_ne (List.getElem?_eq_none le_rfl)
  have hserves₁ : (s₁.request rank (s₀.worker rank).tracker.length).Serves
      ⟨false, ⟨keys, [], []⟩, some (.pull keys), out, hpull.call ⟨rfl, rfl, rfl, rfl⟩⟩
      fun k v => v = (s₀.pushes.map (KVPairs.valueAt · k)).sum := by
    cases h₁
    have hmove : Moves (Request.Step cfg (Action.pull rank keys out).Issues fun _ _ => False) s₀
        _ rank _ := issue_moves ⟨rfl, rfl, rfl, rfl⟩ rank
    obtain ⟨_, _, _, _, ⟨rfl, rfl, rfl, rfl⟩, hserves⟩ := hfresh.serves hmove.step
    exact hserves _
  have hinv := hrun.invariant
    (P := fun s => (s.Serving cfg ∧ s.Conserves cfg) ∧ (s.PushesHandled ∧ s.pushes = s₀.pushes) ∧
      (s.request rank (s₀.worker rank).tracker.length).Serves
        ⟨false, ⟨keys, [], []⟩, some (.pull keys), out, hpull.call ⟨rfl, rfl, rfl, rfl⟩⟩
        fun k v => v = (s₀.pushes.map (KVPairs.valueAt · k)).sum)
    ⟨⟨hserving₁, hconserves₁⟩, ⟨hpushes₁, hsame₁⟩, hserves₁⟩ (by
      rintro s a s' ⟨⟨hserving, hconserves⟩, ⟨hpushes, hsame⟩, hserves⟩ ⟨ha, hpush⟩ hstep
      have hholds := hpushes.store_eq hconserves
      obtain ⟨hpushes', hsame'⟩ := hpushes.step ha hpush hstep
      rw [hsame] at hholds
      exact ⟨⟨hserving.step hz ha hstep, hconserves.step (hserving.safe hz) ha hstep⟩,
        ⟨hpushes', hsame'.trans hsame⟩, serves_step hz ha hholds hserves hstep⟩)
  obtain ⟨⟨hserving, -⟩, -, hserves⟩ := hinv
  refine ⟨fun a ha => step_ok (hserving.safe hz) ha, fun hdone => ?_⟩
  have hfilled := hserves.filled hdone rfl
  rw [← List.forall₂_eq_eq_eq, List.forall₂_map_right_iff]
  exact hfilled.flip

def pushesRun : List (Action ℤ) :=
  [.push 0 ⟨[1, 2 ^ 63], [3, 4], []⟩ true, .push 1 ⟨[1, 5], [10, 20], []⟩ false] ++
    List.replicate 5 (.advance 0) ++ List.replicate 4 (.advance 0) ++
    [.handle 2, .handle 0, .handle 0]

def answersRun : List (Action ℤ) :=
  List.replicate 5 (.advance 0) ++ [.handle 3, .handle 3] ++ List.replicate 5 (.deliver 0) ++
    List.replicate 40 (.receive 1)

theorem pull_sums_pushesRun : ∃ s₀ s₁ s : Cluster ℤ,
    (machine twoServers).Reachable (fun _ a => a.Valid twoServers) s₀ ∧ s₀.PushesHandled ∧
    step twoServers s₀ (.pull 1 [1, 5, 2 ^ 63] ⟨[], none⟩) = .ok s₁ ∧
    (machine twoServers).Steps (fun _ a => a.Valid twoServers ∧ ¬a.IsPush) s₁ s ∧
    (s.request 1 1).Finished ∧ (s.request 1 1).slot.out.vals = [13, 20, 4] := by
  obtain ⟨s₀, h₀, ⟨hthreads, hnet, hts, hsums⟩, hrun⟩ :=
    (machine twoServers).exists_reachable_of_run (fun _ a => a.Valid twoServers) pushesRun
    (fun s : Cluster ℤ => (s.threads = [] ∧ (∀ m ∈ s.net, m.request = true → m.push = false) ∧
        (s.worker 1).tracker.length = 1 ∧
        ([1, 5, 2 ^ 63].map fun k => (s.pushes.map (KVPairs.valueAt · k)).sum) = [13, 20, 4]) ∧
      (((machine twoServers).run (fun _ a => a.Valid twoServers ∧ ¬a.IsPush)
        (s.issue twoServers 1 false ⟨[1, 5, 2 ^ 63], [], []⟩ (some (.pull [1, 5, 2 ^ 63]))
          ⟨[], none⟩) answersRun).any fun s => decide ((s.request 1 1).tracker ≠ none ∧
            (s.request 1 1).calls = [] ∧ (s.request 1 1).outstanding = 0)) = true)
    (by decide +kernel)
  obtain ⟨s, hs, hdecide⟩ := (Option.any_eq_true _ _).mp hrun
  have hdone := of_decide_eq_true hdecide
  have hfinished : (s.request 1 1).Finished := hdone
  have hpushes : s₀.PushesHandled := ⟨by simp [hthreads], hnet⟩
  have hpull : (Action.pull 1 [1, 5, 2 ^ 63] (⟨[], none⟩ : Buffers ℤ)).Valid twoServers := by
    decide +kernel
  have hsteps := Machine.Steps.run hs
  refine ⟨s₀, _, s, h₀, hpushes, rfl, hsteps, hfinished, ?_⟩
  have hvals := (pull_sums_pushes rfl h₀ hpushes hpull rfl hsteps).2
  rw [hts] at hvals
  exact (hvals (.inr hfinished)).trans hsums

end Ps
