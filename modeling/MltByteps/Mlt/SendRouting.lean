import MltByteps.Mlt.ConnectProgress

/-! Which connection the priority channel puts a message on. -/

namespace Mlt.Mesh

variable {V : Type} {S : Setup V} {p d : ℤ} {v : V}

namespace Proc

variable {q q' : Proc V}

/-- `conn_meta_map_` has the place of every connection, and 0 for some that are not there. -/
structure Routes (q : Proc V) : Prop where
  map : ∀ d i, q.connMetaMap.get? d = some i →
    (∃ conn, q.connMetas[i]? = some conn ∧ conn.dest = d) ∨
      i = 0 ∧ ∀ conn ∈ q.connMetas, conn.dest ≠ d
  known : ∀ conn ∈ q.connMetas, (q.connMetaMap.get? conn.dest).isSome
  sending : ∀ x ∈ q.sending, x.1 ∈ q.connMetas ∧
    (x.1.dest = x.2.1 ∨ q.connMetas.head? = some x.1)

def table (q : Proc V) := (q.connMetas, q.connMetaMap, q.sending)

theorem Routes.of_table (h : q.Routes) (heq : q'.table = q.table) : q'.Routes := by
  simp only [table, Prod.mk.injEq] at heq
  obtain ⟨hmetas, hmap, hsending⟩ := heq
  exact ⟨by rw [hmetas, hmap]; exact h.map, by rw [hmetas, hmap]; exact h.known,
    by rw [hmetas, hsending]; exact h.sending⟩

theorem Routes.getD_of_mem (h : q.Routes) (hd : ∃ conn ∈ q.connMetas, conn.dest = d) :
    ∃ conn, q.connMetas[(q.connMetaMap.get? d).getD 0]? = some conn ∧ conn.dest = d := by
  obtain ⟨conn, hmem, rfl⟩ := hd
  obtain ⟨i, hi⟩ := Option.isSome_iff_exists.mp (h.known conn hmem)
  rw [hi]
  rcases h.map _ i hi with hget | ⟨-, hnone⟩
  · exact hget
  · exact absurd rfl (hnone conn hmem)

theorem Routes.getD_of_notMem (h : q.Routes) (hd : ∀ conn ∈ q.connMetas, conn.dest ≠ d) :
    (q.connMetaMap.get? d).getD 0 = 0 := by
  rcases hi : q.connMetaMap.get? d with _ | i
  · rfl
  · rcases h.map d i hi with ⟨conn, hget, hdest⟩ | ⟨rfl, -⟩
    · exact absurd hdest (hd conn (List.mem_of_getElem? hget))
    · rfl

/-- The connection that a message is put on: its own if the channel has been told of it, and
otherwise the first one. -/
theorem Routes.getElem?_getD (h : q.Routes) {conn : Conn}
    (hget : q.connMetas[(q.connMetaMap.get? d).getD 0]? = some conn) :
    conn.dest = d ∨ q.connMetas.head? = some conn ∧ ∀ conn ∈ q.connMetas, conn.dest ≠ d := by
  by_cases hd : ∃ conn ∈ q.connMetas, conn.dest = d
  · obtain ⟨conn', hget', hdest⟩ := h.getD_of_mem hd
    rw [hget] at hget'
    cases hget'
    exact .inl hdest
  · have hnone : ∀ conn ∈ q.connMetas, conn.dest ≠ d := fun conn hmem hdest =>
      hd ⟨conn, hmem, hdest⟩
    rw [h.getD_of_notMem hnone, ← List.head?_eq_getElem?] at hget
    exact .inr ⟨hget, hnone⟩

theorem Routes.sendRequest (h : q.Routes) (hok : q.sendRequest d v = .ok q') : q'.Routes := by
  unfold Proc.sendRequest at hok
  dsimp only at hok
  split at hok
  · cases hok
  · next conn hget =>
    cases hok
    have hconn := h.getElem?_getD hget
    refine ⟨fun d' i hi => ?_, fun conn' hmem => ?_, fun x hx => ?_⟩
    · dsimp only at hi ⊢
      rw [Dict.get?_set] at hi
      split_ifs at hi with hd
      · subst hd
        cases hi
        rcases hconn with hdest | ⟨-, hnone⟩
        · exact .inl ⟨conn, hget, hdest⟩
        · exact .inr ⟨h.getD_of_notMem hnone, hnone⟩
      · exact h.map d' i hi
    · dsimp only
      rw [Dict.get?_set]
      split_ifs
      · rfl
      · exact h.known conn' hmem
    · rcases List.mem_append.mp hx with hx | hx
      · exact h.sending x hx
      · rw [List.mem_singleton.mp hx]
        exact ⟨List.mem_of_getElem? hget, hconn.imp_right And.left⟩

theorem Routes.addConnection {conn : Conn} (h : q.Routes) : (q.addConnection conn).Routes := by
  refine ⟨fun d i hi => ?_, fun conn' hmem => ?_, fun x hx => ?_⟩
  · have hi : (q.connMetaMap.set conn.dest q.connMetas.length).get? d = some i := hi
    change (∃ conn', (q.connMetas ++ [conn])[i]? = some conn' ∧ conn'.dest = d) ∨
      i = 0 ∧ ∀ conn' ∈ q.connMetas ++ [conn], conn'.dest ≠ d
    rw [Dict.get?_set] at hi
    split_ifs at hi with hd
    · cases hi
      exact .inl ⟨conn, by rw [List.getElem?_concat_length], hd.symm⟩
    · rcases h.map d i hi with ⟨conn', hget, hdest⟩ | ⟨rfl, hnone⟩
      · refine .inl ⟨conn', ?_, hdest⟩
        rw [List.getElem?_append_left (List.getElem?_eq_some_iff.mp hget).1]
        exact hget
      · refine .inr ⟨rfl, fun conn' hmem => ?_⟩
        rcases List.mem_append.mp hmem with hmem | hmem
        · exact hnone conn' hmem
        · rw [List.mem_singleton.mp hmem]
          exact fun hdest => hd hdest.symm
  · have hmem : conn' ∈ q.connMetas ++ [conn] := hmem
    change ((q.connMetaMap.set conn.dest q.connMetas.length).get? conn'.dest).isSome
    rw [Dict.get?_set]
    split_ifs with hd
    · rfl
    · rcases List.mem_append.mp hmem with hmem | hmem
      · exact h.known conn' hmem
      · rw [List.mem_singleton.mp hmem] at hd
        exact absurd rfl hd
  · obtain ⟨hmem, hdest⟩ := h.sending x hx
    refine ⟨List.mem_append_left _ hmem, hdest.imp_right fun hhead => ?_⟩
    change (q.connMetas ++ [conn]).head? = some x.1
    rw [List.head?_append, hhead]
    rfl

theorem Routes.prioStep (h : q.Routes) (hok : q.prioStep = .ok q') : q'.Routes := by
  rcases prioStep_cases hok with ⟨_, rfl⟩ | ⟨d, v, srQueue, -, -, hok⟩ | ⟨conn, rest, -, rfl⟩
  · exact h.of_table rfl
  · have h' : Routes { q with srQueue } := h.of_table rfl
    exact h'.sendRequest hok
  · have h' : Routes { q with prioNotifications := rest } := h.of_table rfl
    exact h'.addConnection

theorem userStep_table : (q.userStep p).table = q.table := by
  unfold userStep
  split
  case h_2 =>
    unfold call
    split <;> rfl
  case h_4 =>
    unfold makeMeta
    split <;> rfl
  all_goals rfl

theorem chanStep_table (hok : q.chanStep = .ok q') : q'.table = q.table := by
  unfold chanStep at hok
  split at hok
  case h_4 =>
    obtain ⟨q₁, hadd, hok⟩ := bind_eq_ok.mp hok
    obtain ⟨-, hadd⟩ := require_bind_eq_ok.mp hadd
    cases hadd
    cases hok
    rfl
  case h_6 =>
    split at hok
    · cases hok
      rfl
    · obtain ⟨-, hok⟩ := require_bind_eq_ok.mp hok
      cases hok
      rfl
  all_goals
    cases hok
    rfl

end Proc

namespace Net

variable {n n' : Net V} {q : Proc V}

theorem step_table {a : Action} (hok : n.step a = .ok n') (ha : ∀ p, a ≠ .prio p) (r : ℤ) :
    (n'.procs r).table = (n.procs r).table := by
  cases a with
  | user p =>
    cases hok
    unfold userStep
    split
    · exact (setProc_proj Proc.table (by rfl) r).trans (setProc_proj Proc.table (by rfl) r)
    · exact setProc_proj Proc.table Proc.userStep_table r
    · exact setProc_proj Proc.table Proc.userStep_table r
  | accept p =>
    cases hok
    unfold accept
    split
    · rfl
    · exact setProc_proj Proc.table (by rfl) r
  | recv p src =>
    cases hok
    unfold recv
    split
    · rfl
    · split
      · rfl
      · exact setProc_proj Proc.table (by rfl) r
  | chan p =>
    replace hok : n.chanStep p = .ok n' := hok
    unfold chanStep at hok
    split at hok
    · cases hok
      unfold route
      split
      · exact (setProc_proj Proc.table (by rfl) r).trans (setProc_proj Proc.table (by rfl) r)
      · exact setProc_proj Proc.table (by rfl) r
    · obtain ⟨q, hq, hok⟩ := bind_eq_ok.mp hok
      cases hok
      exact setProc_proj Proc.table (Proc.chanStep_table hq) r
  | prio p => exact absurd rfl (ha p)

theorem routes_of_reachable (h : (machine S).Reachable (Allowed S.nodes) n) :
    ∀ r, (n.procs r).Routes := by
  refine h.invariant (P := fun n => ∀ r, (n.procs r).Routes)
    (fun r => ⟨nofun, nofun, nofun⟩) fun n a n' hn _ hok r => ?_
  replace hok : n.step a = .ok n' := hok
  cases a with
  | prio p =>
    obtain ⟨q, hq, hok⟩ := bind_eq_ok.mp hok
    cases hok
    by_cases hr : r = p
    · subst hr
      rw [setProc_self]
      exact (hn r).prioStep hq
    · rw [setProc_of_ne hr]
      exact hn r
  | _ => exact (hn r).of_table (step_table hok (fun _ heq => nomatch heq) r)

def earlyPost : Setup ℕ := .startup [2, 0, 1] nodup_three
  (fun p => if p = 2 then [.postSend 1 9] else []) (by decide)

/-- Node 2 accepts the connections of 0 and of 1. Its reliable channel has not yet told the priority
channel of the second. -/
def postedEarly : List Action :=
  [.user 0, .user 1, .user 2, .user 0, .user 0, .user 0, .user 0, .accept 2, .chan 2, .chan 2,
    .chan 2, .chan 2, .user 1, .user 1, .user 1, .user 1, .accept 2, .chan 2, .chan 2, .prio 2,
    .prio 2, .prio 2, .user 2, .user 2, .user 2, .user 2, .user 2, .user 2]

end Net

end Mlt.Mesh
