import WakeOnLan.Macfile

/-!
# WakeOnLan.MacfileCorrect

What `get_tokens` finds on one line.

* `fields` — the tokens of a line, read in one pass: a MAC, a host, perhaps a port, perhaps a
  password. The four formats of `get_tokens` are four prefixes of this pass.
* `getTokens_none` / `getTokens_fields` / `getTokens_overflow` — the four attempts together return
  the mask and the tokens of that pass, whatever the arrays held before; an attempt that fails
  never leaves a port behind.
-/

namespace WakeOnLan

open CLib

/-! ## One pass over a line -/

/-- White space and a scanset: the token and the input after it. -/
def scanStr (d : Directive) (s : Bytes) : Option (Bytes × Bytes) :=
  match d.scan (s.dropWhile isSpace) with
  | .ok (some (.str t), r) => some (t, r)
  | _ => none

def scanPort (s : Bytes) : Option (UInt32 × Bytes) :=
  match (Directive.lit 58).scan s with
  | .ok (_, s) =>
    match (Directive.num 10 (some 5)).scan s with
    | .ok (some (.num v), r) => some (v, r)
    | _ => none
  | .error _ => none

structure Fields where
  mac : Bytes
  host : Bytes
  port : Option UInt32
  passwd : Option Bytes
  deriving DecidableEq

def fields (s : Bytes) : Option Fields :=
  match scanStr macFmt s with
  | none => none
  | some (mac, s) =>
    match scanStr hostFmt s with
    | none => none
    | some (host, s) =>
      match scanPort s with
      | some (port, s) => some ⟨mac, host, some port, (scanStr passFmt s).map Prod.fst⟩
      | none => some ⟨mac, host, none, (scanStr passFmt s).map Prod.fst⟩

def Fields.mask (f : Fields) : UInt32 :=
  match f.port, f.passwd with
  | some _, some _ => Token.mac ||| Token.host ||| Token.port ||| Token.pass
  | none, some _ => Token.mac ||| Token.host ||| Token.pass
  | some _, none => Token.mac ||| Token.host ||| Token.port
  | none, none => Token.mac ||| Token.host

/-! ## Values assigned by a format -/

theorem scan_scanStr_some {d : Directive} {ds : List Directive} {s t r : Bytes}
    (h : scanStr d s = some (t, r)) :
    (scan (.space :: d :: ds) s).values = .str t :: (scan ds r).values := by
  unfold scanStr at h
  split at h
  · rename_i t' r' hd
    cases h
    rw [scan_cons_ok (scan_space s), scan_cons_ok hd]
    rfl
  · cases h

theorem scan_scanStr_none {w : Option Nat} {p : UInt8 → Bool} {ds : List Directive} {s : Bytes}
    (h : scanStr (.set w p) s = none) : (scan (.space :: .set w p :: ds) s).values = [] := by
  rw [scan_cons_ok (scan_space s)]
  rcases scanSet_cases w p (s.dropWhile isSpace) with ⟨e, he⟩ | ⟨tok, _, _, _, hok⟩
  · rw [scan_cons_error (show (Directive.set w p).scan _ = _ from he)]
    rfl
  · simp [scanStr, Directive.scan, hok] at h

theorem scan_scanPort_some {ds : List Directive} {s r : Bytes} {v : UInt32}
    (h : scanPort s = some (v, r)) :
    (scan (portFmt ++ ds) s).values = .num v :: (scan ds r).values := by
  unfold scanPort at h
  split at h
  · rename_i u s' hl
    obtain ⟨rfl, rfl⟩ := scan_lit_inv hl
    split at h
    · rename_i v' r' hn
      cases h
      rw [portFmt, List.cons_append, scan_cons_ok hl, List.cons_append, scan_cons_ok hn]
      rfl
    · cases h
  · cases h

theorem scan_scanPort_none {ds : List Directive} {s : Bytes} (h : scanPort s = none) :
    (scan (portFmt ++ ds) s).values = [] := by
  unfold scanPort at h
  rcases hl : (Directive.lit 58).scan s with e | ⟨u, s'⟩
  · rw [portFmt, List.cons_append, scan_cons_error hl]
  · rw [hl] at h
    obtain ⟨rfl, -⟩ := scan_lit_inv hl
    rcases hn : (Directive.num 10 (some 5)).scan s' with e | ⟨v, r⟩
    · rw [portFmt, List.cons_append, scan_cons_ok hl, List.cons_append, scan_cons_error hn]
      rfl
    · obtain ⟨n, rfl⟩ := scan_num_inv hn
      simp [hn] at h

/-- Behind the colon of a port no password can start, so the format without a port fails where
the one with a port has matched its colon. -/
theorem scanStr_pass_of_scanPort {s r : Bytes} {v : UInt32} (h : scanPort s = some (v, r)) :
    scanStr passFmt s = none := by
  cases s with
  | nil => cases h
  | cons c s =>
    have hc : c = 58 := by
      by_contra hc
      simp [scanPort, Directive.scan, hc] at h
    subst hc
    have hsp : isSpace 58 = false := rfl
    have hp : isPassChar 58 = false := rfl
    simp [scanStr, passFmt, Directive.scan, scanSet, window, hsp, hp]

theorem scanStr_length {n : Nat} {p : UInt8 → Bool} {s t r : Bytes}
    (h : scanStr (.set (some n) p) s = some (t, r)) : t.length ≤ n := by
  rcases scanSet_cases (some n) p (s.dropWhile isSpace) with ⟨e, he⟩ | ⟨tok, _, _, hlen, hok⟩
  · simp [scanStr, Directive.scan, he] at h
  · simp only [scanStr, Directive.scan, hok, Option.some.injEq, Prod.mk.injEq] at h
    exact h.1 ▸ hlen n rfl

/-- The comment attempt assigns nothing, so it never succeeds: `%*s` is not counted. -/
theorem sscanf_comment_ret (s : Bytes) : (sscanf s commentFmt).ret ≠ 1 := by
  have hv : (sscanf s commentFmt).values = [] := by
    have : ∀ (ds : List Directive), (∀ d ∈ ds, ∀ v s s', d.scan s ≠ .ok (some v, s')) →
        ∀ s, (scan ds s).values = [] := by
      intro ds hds
      induction ds with
      | nil => intro s; rfl
      | cons d ds ih =>
        intro s
        rcases hd : d.scan s with e | ⟨v, s'⟩
        · rw [scan_cons_error hd]
        · cases v with
          | none =>
            rw [scan_cons_ok hd]
            exact ih (fun d hd => hds d (List.mem_cons_of_mem _ hd)) s'
          | some v => exact absurd hd (hds d (List.mem_cons_self ..) v s s')
    apply this
    intro d hd v s s' h
    simp only [commentFmt, List.mem_cons, List.not_mem_nil, or_false] at hd
    rcases hd with rfl | rfl | rfl | rfl
    · cases h
    · cases (scan_lit_inv h).1
    · cases h
    · simp only [Directive.scan] at h
      split at h <;> cases h
  intro h
  have := length_of_ret (n := 1) h
  rw [hv] at this
  cases this

/-! ## The four attempts -/

section Attempts

variable {str : Bytes} {fmt : List Directive} {args : List Arg} {n : Nat} {mask : UInt32}
  {next : Outs → Except Fault (UInt32 × Outs)} {o o' : Outs} {vs : List Value}

theorem attempt_hit (hv : (sscanf str fmt).values = vs) (hs : store args vs o = .ok o')
    (hn : vs.length = n) (hpos : 0 < n) :
    attempt str fmt args n mask next o = .ok (mask, o') := by
  have hret : (sscanf str fmt).ret = n := (sscanf_ret_eq hpos).mpr (hv ▸ hn)
  simp [attempt, sscanfInto, hv, hs, hret]

theorem attempt_miss (hv : (sscanf str fmt).values = vs) (hs : store args vs o = .ok o')
    (hn : vs.length ≠ n) : attempt str fmt args n mask next o = next o' := by
  have hret : (sscanf str fmt).ret ≠ n := fun h => hn (hv ▸ length_of_ret h)
  simp [attempt, sscanfInto, hv, hs, hret]

theorem attempt_fault {e : Fault} (hv : (sscanf str fmt).values = vs)
    (hs : store args vs o = .error e) : attempt str fmt args n mask next o = .error e := by
  simp [attempt, sscanfInto, hv, hs]

end Attempts

theorem macArg_ok {mac : Bytes} (hm : mac.length < 18) (o : Outs) :
    macArg (.str mac) o = .ok { o with mac := ⟨mac, hm⟩ } := by
  simp [macArg, CharArray.store_ok hm, Except.map]

theorem hostArg_ok {host : Bytes} (hh : host.length < 255) (o : Outs) :
    hostArg (.str host) o = .ok { o with host := ⟨host, hh⟩ } := by
  simp [hostArg, CharArray.store_ok hh, Except.map]

theorem hostArg_overflow {host : Bytes} (hh : ¬ host.length < 255) (o : Outs) :
    hostArg (.str host) o = .error .overflow := by
  simp [hostArg, CharArray.store_overflow hh, Except.map]

theorem passwdArg_ok {passwd : Bytes} (hp : passwd.length < 18) (o : Outs) :
    passwdArg (.str passwd) o = .ok { o with passwd := ⟨passwd, hp⟩ } := by
  simp [passwdArg, CharArray.store_ok hp, Except.map]

theorem store_host {mac host : Bytes} (hm : mac.length < 18) (hh : host.length < 255)
    (args : List Arg) (o : Outs) :
    store (macArg :: hostArg :: args) [.str mac, .str host] o =
      .ok { o with mac := ⟨mac, hm⟩, host := ⟨host, hh⟩ } := by
  simp [store, macArg_ok hm, hostArg_ok hh]

theorem store_port {mac host : Bytes} {port : UInt32} (hm : mac.length < 18)
    (hh : host.length < 255) (args : List Arg) (o : Outs) :
    store (macArg :: hostArg :: portArg :: args) [.str mac, .str host, .num port] o =
      .ok { o with mac := ⟨mac, hm⟩, host := ⟨host, hh⟩, port := port } := by
  simp [store, macArg_ok hm, hostArg_ok hh, portArg]

section Line

variable {str mac host passwd s₁ s₂ s₃ s₄ : Bytes} {port : UInt32}

theorem values_mac (hm : scanStr macFmt (cstr str) = some (mac, s₁))
    (hh : scanStr hostFmt s₁ = none)
    (ds : List Directive) :
    (sscanf str (.space :: macFmt :: .space :: hostFmt :: ds)).values = [.str mac] := by
  rw [sscanf, scan_scanStr_some hm]
  exact congrArg _ (scan_scanStr_none hh)

theorem values_host (hm : scanStr macFmt (cstr str) = some (mac, s₁))
    (hh : scanStr hostFmt s₁ = some (host, s₂)) (ds : List Directive) :
    (sscanf str (.space :: macFmt :: .space :: hostFmt :: ds)).values =
      .str mac :: .str host :: (scan ds s₂).values := by
  rw [sscanf, scan_scanStr_some hm, scan_scanStr_some hh]

/-- Without a MAC nothing is stored. -/
theorem getTokens_no_mac (hm : scanStr macFmt (cstr str) = none) (o : Outs) :
    getTokens str o = .ok (0, o) := by
  have hv : ∀ ds, (sscanf str (.space :: macFmt :: ds)).values = [] :=
    fun ds => scan_scanStr_none hm
  rw [getTokens, if_neg (sscanf_comment_ret str)]
  refine Eq.trans (attempt_miss (hv _) rfl (by simp)) ?_
  refine Eq.trans (attempt_miss (hv _) rfl (by simp)) ?_
  refine Eq.trans (attempt_miss (hv _) rfl (by simp)) ?_
  exact attempt_miss (hv _) rfl (by simp)

/-- Without a host every attempt stores the MAC again and fails. -/
theorem getTokens_no_host (hm : scanStr macFmt (cstr str) = some (mac, s₁))
    (hh : scanStr hostFmt s₁ = none) (o : Outs) :
    ∃ o', getTokens str o = .ok (0, o') ∧ o'.port = o.port := by
  have hlen : mac.length < 18 := Nat.lt_succ_of_le (scanStr_length hm)
  have hs : ∀ args o, store (macArg :: args) [.str mac] o = .ok { o with mac := ⟨mac, hlen⟩ } := by
    intro args o
    simp [store, macArg_ok hlen]
  rw [getTokens, if_neg (sscanf_comment_ret str)]
  refine ⟨{ o with mac := ⟨mac, hlen⟩ }, ?_, rfl⟩
  refine Eq.trans (attempt_miss (values_mac hm hh _) (hs _ _) (by simp)) ?_
  refine Eq.trans (attempt_miss (values_mac hm hh _) (hs _ _) (by simp)) ?_
  refine Eq.trans (attempt_miss (values_mac hm hh _) (hs _ _) (by simp)) ?_
  exact attempt_miss (values_mac hm hh _) (hs _ _) (by simp)

/-- A host that does not fit is the end of the first attempt. -/
theorem getTokens_long_host (hm : scanStr macFmt (cstr str) = some (mac, s₁))
    (hh : scanStr hostFmt s₁ = some (host, s₂)) (hlong : ¬ host.length < 255) (o : Outs) :
    getTokens str o = .error .overflow := by
  have hlen : mac.length < 18 := Nat.lt_succ_of_le (scanStr_length hm)
  rw [getTokens, if_neg (sscanf_comment_ret str)]
  refine attempt_fault (values_host hm hh _) ?_
  simp [store, macArg_ok hlen, hostArg_overflow hlong]

theorem getTokens_port_pass (hm : scanStr macFmt (cstr str) = some (mac, s₁))
    (hh : scanStr hostFmt s₁ = some (host, s₂)) (hfit : host.length < 255)
    (hp : scanPort s₂ = some (port, s₃)) (hw : scanStr passFmt s₃ = some (passwd, s₄)) (o : Outs) :
    ∃ m p, getTokens str o = .ok (Token.mac ||| Token.host ||| Token.port ||| Token.pass,
      { o with mac := ⟨mac, m⟩, host := ⟨host, hfit⟩, port := port, passwd := ⟨passwd, p⟩ }) := by
  have hlen : mac.length < 18 := Nat.lt_succ_of_le (scanStr_length hm)
  have hlen' : passwd.length < 18 := Nat.lt_succ_of_le (scanStr_length hw)
  refine ⟨hlen, hlen', ?_⟩
  have hv := values_host hm hh (portFmt ++ [.space, passFmt])
  rw [scan_scanPort_some hp, scan_scanStr_some hw] at hv
  rw [getTokens, if_neg (sscanf_comment_ret str)]
  refine attempt_hit hv ?_ rfl (by simp)
  simp [store, macArg_ok hlen, hostArg_ok hfit, portArg, passwdArg_ok hlen']

/-- The second attempt, for a password without a port, fails on the colon of the port. -/
theorem getTokens_port (hm : scanStr macFmt (cstr str) = some (mac, s₁))
    (hh : scanStr hostFmt s₁ = some (host, s₂)) (hfit : host.length < 255)
    (hp : scanPort s₂ = some (port, s₃)) (hw : scanStr passFmt s₃ = none) (o : Outs) :
    ∃ m, getTokens str o = .ok (Token.mac ||| Token.host ||| Token.port,
      { o with mac := ⟨mac, m⟩, host := ⟨host, hfit⟩, port := port }) := by
  have hlen : mac.length < 18 := Nat.lt_succ_of_le (scanStr_length hm)
  refine ⟨hlen, ?_⟩
  have hv1 := values_host hm hh (portFmt ++ [.space, passFmt])
  rw [scan_scanPort_some hp, show (scan [.space, passFmt] s₃).values = [] from
    scan_scanStr_none hw] at hv1
  have hv2 := values_host hm hh [.space, passFmt]
  rw [show (scan [.space, passFmt] s₂).values = [] from
    scan_scanStr_none (scanStr_pass_of_scanPort hp)] at hv2
  have hv3 := values_host hm hh (portFmt ++ [])
  rw [scan_scanPort_some hp] at hv3
  rw [getTokens, if_neg (sscanf_comment_ret str)]
  refine Eq.trans (attempt_miss hv1 (store_port hlen hfit _ _) (by simp)) ?_
  refine Eq.trans (attempt_miss hv2 (store_host hlen hfit _ _) (by simp)) ?_
  exact attempt_hit hv3 (store_port hlen hfit _ _) rfl (by simp)

theorem getTokens_pass (hm : scanStr macFmt (cstr str) = some (mac, s₁))
    (hh : scanStr hostFmt s₁ = some (host, s₂)) (hfit : host.length < 255)
    (hp : scanPort s₂ = none) (hw : scanStr passFmt s₂ = some (passwd, s₄)) (o : Outs) :
    ∃ m p, getTokens str o = .ok (Token.mac ||| Token.host ||| Token.pass,
      { o with mac := ⟨mac, m⟩, host := ⟨host, hfit⟩, passwd := ⟨passwd, p⟩ }) := by
  have hlen : mac.length < 18 := Nat.lt_succ_of_le (scanStr_length hm)
  have hlen' : passwd.length < 18 := Nat.lt_succ_of_le (scanStr_length hw)
  refine ⟨hlen, hlen', ?_⟩
  have hv1 := values_host hm hh (portFmt ++ [.space, passFmt])
  rw [scan_scanPort_none hp] at hv1
  have hv2 := values_host hm hh [.space, passFmt]
  rw [scan_scanStr_some hw] at hv2
  rw [getTokens, if_neg (sscanf_comment_ret str)]
  refine Eq.trans (attempt_miss hv1 (store_host hlen hfit _ _) (by simp)) ?_
  refine attempt_hit hv2 ?_ rfl (by simp)
  simp [store, macArg_ok hlen, hostArg_ok hfit, passwdArg_ok hlen']

theorem getTokens_bare (hm : scanStr macFmt (cstr str) = some (mac, s₁))
    (hh : scanStr hostFmt s₁ = some (host, s₂)) (hfit : host.length < 255)
    (hp : scanPort s₂ = none) (hw : scanStr passFmt s₂ = none) (o : Outs) :
    ∃ m, getTokens str o = .ok (Token.mac ||| Token.host,
      { o with mac := ⟨mac, m⟩, host := ⟨host, hfit⟩ }) := by
  have hlen : mac.length < 18 := Nat.lt_succ_of_le (scanStr_length hm)
  refine ⟨hlen, ?_⟩
  have hv1 := values_host hm hh (portFmt ++ [.space, passFmt])
  rw [scan_scanPort_none hp] at hv1
  have hv2 := values_host hm hh [.space, passFmt]
  rw [show (scan [.space, passFmt] s₂).values = [] from scan_scanStr_none hw] at hv2
  have hv3 := values_host hm hh (portFmt ++ [])
  rw [scan_scanPort_none hp] at hv3
  have hv4 := values_host hm hh []
  rw [getTokens, if_neg (sscanf_comment_ret str)]
  refine Eq.trans (attempt_miss hv1 (store_host hlen hfit _ _) (by simp)) ?_
  refine Eq.trans (attempt_miss hv2 (store_host hlen hfit _ _) (by simp)) ?_
  refine Eq.trans (attempt_miss hv3 (store_host hlen hfit _ _) (by simp)) ?_
  exact attempt_hit hv4 (store_host hlen hfit _ _) rfl (by simp)

end Line

/-! ## The four attempts are one pass -/

def Fields.record (f : Fields) : Record :=
  { mac := f.mac, host := f.host, port := f.port.getD 0, passwd := f.passwd }

theorem Fields.mask_ne_zero (f : Fields) : f.mask ≠ 0 := by
  unfold Fields.mask
  split <;> decide

theorem getTokens_none {str : Bytes} (h : fields (cstr str) = none) (o : Outs) :
    ∃ o', getTokens str o = .ok (0, o') ∧ o'.port = o.port := by
  unfold fields at h
  split at h
  · rename_i hm
    exact ⟨o, getTokens_no_mac hm o, rfl⟩
  · rename_i hm
    split at h
    · rename_i hh
      exact getTokens_no_host hm hh o
    · split at h <;> cases h

theorem getTokens_overflow {str : Bytes} {f : Fields} (h : fields (cstr str) = some f)
    (hlong : ¬ f.host.length < 255) (o : Outs) : getTokens str o = .error .overflow := by
  unfold fields at h
  split at h
  · cases h
  · rename_i hm
    split at h
    · cases h
    · rename_i hh
      split at h <;> cases h <;> exact getTokens_long_host hm hh hlong o

/-- What the arrays hold after a line with the tokens `f`: these tokens, and nothing else
changes. -/
theorem getTokens_fields {str : Bytes} {f : Fields} (h : fields (cstr str) = some f)
    (hfit : f.host.length < 255) (o : Outs) :
    ∃ o', getTokens str o = .ok (f.mask, o') ∧ o'.mac.str = f.mac ∧ o'.host.str = f.host ∧
      o'.port = f.port.getD o.port ∧ o'.passwd.str = f.passwd.getD o.passwd.str := by
  unfold fields at h
  split at h
  · cases h
  · rename_i mac s₁ hm
    split at h
    · cases h
    · rename_i host s₂ hh
      split at h
      · rename_i port s₃ hp
        cases h
        cases hw : scanStr passFmt s₃ with
        | none =>
          obtain ⟨m, hok⟩ := getTokens_port hm hh hfit hp hw o
          exact ⟨_, hok, rfl, rfl, rfl, rfl⟩
        | some ps =>
          obtain ⟨m, p, hok⟩ := getTokens_port_pass hm hh hfit hp hw o
          exact ⟨_, hok, rfl, rfl, rfl, rfl⟩
      · rename_i hp
        cases h
        cases hw : scanStr passFmt s₂ with
        | none =>
          obtain ⟨m, hok⟩ := getTokens_bare hm hh hfit hp hw o
          exact ⟨_, hok, rfl, rfl, rfl, rfl⟩
        | some ps =>
          obtain ⟨m, p, hok⟩ := getTokens_pass hm hh hfit hp hw o
          exact ⟨_, hok, rfl, rfl, rfl, rfl⟩

theorem Fields.mask_pass (f : Fields) : f.mask &&& Token.pass ≠ 0 ↔ f.passwd ≠ none := by
  obtain ⟨mac, host, port, passwd⟩ := f
  cases port <;> cases passwd <;> simp [Fields.mask] <;> decide

/-- The record of a line with the tokens `f`, if the port was `0` before. -/
theorem getTokens_some {str : Bytes} {f : Fields} (h : fields (cstr str) = some f)
    (hfit : f.host.length < 255) {o : Outs} (hport : o.port = 0) :
    ∃ o', getTokens str o = .ok (f.mask, o') ∧ record f.mask o' = f.record := by
  obtain ⟨o', hok, hmac, hhost, hp, hpass⟩ := getTokens_fields h hfit o
  refine ⟨o', hok, ?_⟩
  show record f.mask o' = ⟨f.mac, f.host, f.port.getD 0, f.passwd⟩
  rw [record, hmac, hhost, hp, hport, hpass]
  cases hw : f.passwd with
  | none =>
    have hmask : ¬ f.mask &&& Token.pass ≠ 0 := fun hm => f.mask_pass.mp hm hw
    rw [if_neg hmask]
  | some t =>
    have hmask : f.mask &&& Token.pass ≠ 0 := f.mask_pass.mpr (by simp [hw])
    rw [if_pos hmask]
    rfl

end WakeOnLan
