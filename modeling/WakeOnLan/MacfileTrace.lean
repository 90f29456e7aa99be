import WakeOnLan.MacfileStores

/-!
# WakeOnLan.MacfileTrace

What the failed attempts of `get_tokens` leave behind.

* `Strings`            — what the pointers of `get_tokens` point to, in arrays of any size.
* `getTokensStrings`   — `get_tokens` on them; `getTokens_strings` compares it with the arrays of
  `macfile_parse`, which end at a host that does not fit.
* `trials_eq`          — the result: the failed attempts assign one after the other, and then the
  first that matches.
* `assign_same`        — an attempt that matches assigns all its arguments, so what was there before
  does not matter.
* `failed_port`        — an attempt that assigned the port and failed is followed by one that has a
  port.
-/

namespace WakeOnLan

open CLib

structure Strings where
  mac : Bytes
  host : Bytes
  port : UInt32
  passwd : Bytes
  deriving DecidableEq

def Target.kind : Target → Kind
  | .mac | .host | .passwd => .str
  | .port => .num

def Target.put : Target → Value → Strings → Strings
  | .mac, .str s, o => { o with mac := s }
  | .host, .str s, o => { o with host := s }
  | .port, .num v, o => { o with port := v }
  | .passwd, .str s, o => { o with passwd := s }
  | _, _, o => o

def putAll (xs : List (Target × Value)) (o : Strings) : Strings :=
  xs.foldl (fun o x => x.1.put x.2 o) o

/-- `sscanf` of one attempt, with the values it stores. -/
def Attempt.assign (a : Attempt) (line : Bytes) (o : Strings) : Strings :=
  putAll (a.args.zip (sscanf line a.fmt).values) o

def Attempt.matches (a : Attempt) (line : Bytes) : Bool := (sscanf line a.fmt).ret = a.count

def trials (line : Bytes) : List Attempt → Strings → UInt32 × Strings
  | [], o => (0, o)
  | a :: as, o =>
    if a.matches line then (a.mask, a.assign line o) else trials line as (a.assign line o)

def getTokensStrings (line : Bytes) (o : Strings) : UInt32 × Strings :=
  if (sscanf line commentFmt).ret = 1 then (0, o) else trials line attempts o

/-- The first attempt whose format matches the whole of its conversions. -/
def firstMatch (line : Bytes) : Option Attempt := attempts.find? (·.matches line)

def failedAttempts (line : Bytes) : List Attempt := attempts.takeWhile fun a => !a.matches line

/-! ## The result -/

theorem trials_eq (line : Bytes) (as : List Attempt) (o : Strings) :
    trials line as o =
      let o' := (as.takeWhile fun a => !a.matches line).foldl (fun o a => a.assign line o) o
      match as.find? (·.matches line) with
      | some a => (a.mask, a.assign line o')
      | none => (0, o') := by
  induction as generalizing o with
  | nil => rfl
  | cons a as ih =>
    by_cases h : a.matches line = true
    · simp [trials, h]
    · simp [trials, h, ih]

theorem getTokensStrings_eq (line : Bytes) (o : Strings) :
    getTokensStrings line o =
      let o' := (failedAttempts line).foldl (fun o a => a.assign line o) o
      match firstMatch line with
      | some a => (a.mask, a.assign line o')
      | none => (0, o') := by
  rw [getTokensStrings, if_neg (sscanf_comment_ret line)]
  exact trials_eq line attempts o

/-! ## What an attempt assigns -/

/-- The two hold the same at one of the pointers. -/
def Target.Same : Target → Strings → Strings → Prop
  | .mac, o, o' => o.mac = o'.mac
  | .host, o, o' => o.host = o'.host
  | .port, o, o' => o.port = o'.port
  | .passwd, o, o' => o.passwd = o'.passwd

theorem put_same_of_same {t : Target} {o o' : Strings} (h : t.Same o o') (u : Target)
    (v : Value) : t.Same (u.put v o) (u.put v o') := by
  cases u <;> cases v <;> cases t <;> first | exact h | rfl

theorem put_same {t : Target} {v : Value} (h : v.kind = t.kind) (o o' : Strings) :
    t.Same (t.put v o) (t.put v o') := by
  cases t <;> cases v <;> first | rfl | cases h

theorem putAll_same_of_same {t : Target} (xs : List (Target × Value)) {o o' : Strings}
    (h : t.Same o o') : t.Same (putAll xs o) (putAll xs o') := by
  induction xs generalizing o o' with
  | nil => exact h
  | cons x xs ih => exact ih (put_same_of_same h x.1 x.2)

/-- When there is a value for every argument, what each of them points to is settled by the
values. -/
theorem putAll_same {t : Target} {args : List Target} {vs : List Value}
    (hkind : vs.map Value.kind = args.map Target.kind) (ht : t ∈ args) (o o' : Strings) :
    t.Same (putAll (args.zip vs) o) (putAll (args.zip vs) o') := by
  induction args generalizing vs o o' with
  | nil => cases ht
  | cons u args ih =>
    cases vs with
    | nil => cases hkind
    | cons v vs =>
      simp only [List.map_cons, List.cons.injEq] at hkind
      rcases List.mem_cons.mp ht with rfl | ht
      · exact putAll_same_of_same (args.zip vs) (put_same hkind.1 o o')
      · exact ih hkind.2 ht (u.put v o) (u.put v o')

theorem put_port {t : Target} (h : t ≠ .port) (v : Value) (o : Strings) :
    (t.put v o).port = o.port := by
  cases t <;> cases v <;> first | rfl | exact absurd rfl h

theorem putAll_port {xs : List (Target × Value)} (h : ∀ x ∈ xs, x.1 ≠ .port) (o : Strings) :
    (putAll xs o).port = o.port := by
  induction xs generalizing o with
  | nil => rfl
  | cons x xs ih =>
    have hrest := ih (fun y hy => h y (List.mem_cons_of_mem _ hy)) (x.1.put x.2 o)
    exact hrest.trans (put_port (h x (List.mem_cons_self ..)) x.2 o)

theorem assign_port_of_not_mem {a : Attempt} (h : Target.port ∉ a.args) {line : Bytes}
    (o : Strings) : (a.assign line o).port = o.port := by
  apply putAll_port
  intro x hx hport
  exact h (hport ▸ (List.of_mem_zip hx).1)

/-- The first values go to the first arguments. -/
theorem zip_ne_port (pre : List Target) {post : List Target} {vs : List Value}
    (h : Target.port ∉ pre)
    (hlen : vs.length ≤ pre.length) : ∀ x ∈ (pre ++ post).zip vs, x.1 ≠ .port := by
  induction pre generalizing vs with
  | nil =>
    rw [List.length_eq_zero_iff.mp (Nat.le_zero.mp hlen), List.zip_nil_right]
    intro x hx
    cases hx
  | cons t pre ih =>
    cases vs with
    | nil =>
      intro x hx
      cases hx
    | cons v vs =>
      have hrest := ih (fun hp => h (List.mem_cons_of_mem _ hp)) (Nat.le_of_succ_le_succ hlen)
      intro x hx
      rcases List.mem_cons.mp hx with rfl | hx
      · rintro rfl
        exact h (List.mem_cons_self ..)
      · exact hrest x hx

/-! ## The four attempts -/

section Attempts

variable {line : Bytes} {a : Attempt}

theorem attempts_kinds (ha : a ∈ attempts) :
    a.fmt.filterMap Directive.kind = a.args.map Target.kind ∧ a.count = a.args.length ∧
      0 < a.count := by
  simp only [attempts, List.mem_cons, List.not_mem_nil, or_false] at ha
  rcases ha with rfl | rfl | rfl | rfl <;> exact ⟨rfl, rfl, by decide⟩

theorem attempts_mask (ha : a ∈ attempts) :
    .mac ∈ a.args ∧ .host ∈ a.args ∧ (a.mask &&& Token.port ≠ 0 ↔ .port ∈ a.args) ∧
      (a.mask &&& Token.pass ≠ 0 ↔ .passwd ∈ a.args) := by
  simp only [attempts, List.mem_cons, List.not_mem_nil, or_false] at ha
  rcases ha with rfl | rfl | rfl | rfl <;> decide

theorem matches_iff (ha : a ∈ attempts) :
    a.matches line = true ↔ (sscanf line a.fmt).values.length = a.count := by
  rw [Attempt.matches, decide_eq_true_iff]
  exact sscanf_ret_eq (attempts_kinds ha).2.2

theorem length_values_le (ha : a ∈ attempts) :
    (sscanf line a.fmt).values.length ≤ a.count := by
  obtain ⟨hkinds, hcount, -⟩ := attempts_kinds ha
  have hle := (scan_kinds a.fmt (cstr line)).length_le
  rw [hkinds, List.length_map, List.length_map, ← hcount] at hle
  exact hle

/-- An attempt that matches leaves nothing at its pointers of what was there before. -/
theorem assign_same (ha : a ∈ attempts) (hmatch : a.matches line = true) {t : Target}
    (ht : t ∈ a.args) (o o' : Strings) : t.Same (a.assign line o) (a.assign line o') := by
  obtain ⟨hkinds, hcount, -⟩ := attempts_kinds ha
  have hprefix := scan_kinds a.fmt (cstr line)
  have hlen := (matches_iff ha).mp hmatch
  apply putAll_same _ ht
  rw [hkinds] at hprefix
  exact hprefix.eq_of_length (by rw [List.length_map, List.length_map, ← hcount]; exact hlen)

/-- Behind a port no password is found, so of the next two attempts it is the one with the port that
matches. -/
theorem values_of_port
    (h : 3 ≤ (sscanf line
      ([.space, macFmt, .space, hostFmt] ++ portFmt ++ [.space, passFmt])).values.length) :
    (sscanf line [.space, macFmt, .space, hostFmt, .space, passFmt]).values.length = 2 ∧
      (sscanf line ([.space, macFmt, .space, hostFmt] ++ portFmt)).values.length = 3 := by
  cases hm : scanStr macFmt (cstr line) with
  | none =>
    have hv : (sscanf line
        ([.space, macFmt, .space, hostFmt] ++ portFmt ++ [.space, passFmt])).values = [] :=
      scan_scanStr_none hm
    rw [hv] at h
    simp at h
  | some x =>
    obtain ⟨mac, s₁⟩ := x
    cases hh : scanStr hostFmt s₁ with
    | none =>
      have hv := values_mac hm hh (portFmt ++ [.space, passFmt])
      exact absurd (Nat.le_trans h (Nat.le_of_eq (congrArg List.length hv))) (by simp)
    | some y =>
      obtain ⟨host, s₂⟩ := y
      cases hp : scanPort s₂ with
      | none =>
        have hv := values_host hm hh (portFmt ++ [.space, passFmt])
        rw [scan_scanPort_none hp] at hv
        exact absurd (Nat.le_trans h (Nat.le_of_eq (congrArg List.length hv))) (by simp)
      | some z =>
        obtain ⟨port, s₃⟩ := z
        have hpass := values_host hm hh [.space, passFmt]
        rw [show (scan [.space, passFmt] s₂).values = [] from
          scan_scanStr_none (scanStr_pass_of_scanPort hp)] at hpass
        have hport := values_host hm hh (portFmt ++ [])
        rw [scan_scanPort_some hp] at hport
        exact ⟨congrArg List.length hpass, congrArg List.length hport⟩

/-- An attempt that fails after it has assigned the port is followed by one that matches with a
port. -/
theorem firstMatch_of_port
    (h : (sscanf line
      ([.space, macFmt, .space, hostFmt] ++ portFmt ++ [.space, passFmt])).values.length = 3) :
    ∃ a, firstMatch line = some a ∧ Target.port ∈ a.args := by
  obtain ⟨h2, h3⟩ := values_of_port (Nat.le_of_eq h.symm)
  refine ⟨attempts[2], List.find?_eq_some_iff_append.mpr
    ⟨?_, [attempts[0], attempts[1]], [attempts[3]], rfl, ?_⟩, by decide⟩
  · exact (matches_iff (List.getElem_mem _)).mpr h3
  · intro a ha
    rw [Bool.not_eq_true', ← Bool.not_eq_true]
    intro hmatch
    simp only [List.mem_cons, List.not_mem_nil, or_false] at ha
    rcases ha with rfl | rfl
    · have := (matches_iff (List.getElem_mem _)).mp hmatch
      exact absurd (h.symm.trans this) (by decide)
    · have := (matches_iff (List.getElem_mem _)).mp hmatch
      exact absurd (h2.symm.trans this) (by decide)

/-- A failed attempt leaves the port alone, unless one with a port succeeds. -/
theorem failed_port (hport : ∀ a, firstMatch line = some a → Target.port ∉ a.args)
    (ha : a ∈ failedAttempts line) (o : Strings) : (a.assign line o).port = o.port := by
  have hmem : a ∈ attempts := List.takeWhile_subset _ ha
  have hfail : ¬ a.matches line = true := by
    have := List.all_eq_true.mp List.all_takeWhile a ha
    simpa using this
  have hne := fun h => hfail ((matches_iff hmem).mpr h)
  have hle : (sscanf line a.fmt).values.length ≤ a.count := length_values_le hmem
  simp only [attempts, List.mem_cons, List.not_mem_nil, or_false] at hmem
  rcases hmem with rfl | rfl | rfl | rfl
  · have hne4 : (sscanf line
        ([.space, macFmt, .space, hostFmt] ++ portFmt ++ [.space, passFmt])).values.length ≠ 4 :=
      hne
    have hle4 : (sscanf line
        ([.space, macFmt, .space, hostFmt] ++ portFmt ++ [.space, passFmt])).values.length ≤ 4 :=
      hle
    have hne3 : (sscanf line
        ([.space, macFmt, .space, hostFmt] ++ portFmt ++ [.space, passFmt])).values.length ≠ 3 := by
      intro h3
      obtain ⟨a, hfirst, hin⟩ := firstMatch_of_port h3
      exact hport a hfirst hin
    have hle2 : (sscanf line
        ([.space, macFmt, .space, hostFmt] ++ portFmt ++ [.space, passFmt])).values.length ≤ 2 := by
      omega
    exact putAll_port (zip_ne_port [.mac, .host] (by decide) hle2) o
  · exact putAll_port (zip_ne_port [.mac, .host, .passwd] (by decide) hle) o
  · have hlt : (sscanf line ([.space, macFmt, .space, hostFmt] ++ portFmt)).values.length < 3 :=
      Nat.lt_of_le_of_ne hle hne
    exact putAll_port (zip_ne_port [.mac, .host] (by decide) (Nat.le_of_lt_succ hlt)) o
  · exact putAll_port (zip_ne_port [.mac, .host] (by decide) hle) o

end Attempts

/-! ## No trace -/

/-- What is asked of the result `r` of a call on `line` with `o` at its pointers. -/
structure NoTrace (line : Bytes) (o : Strings) (r : UInt32 × Strings) : Prop where
  unmatched : firstMatch line = none → r.1 = 0
  matched : ∀ a, firstMatch line = some a → r.1 = a.mask
  mac : ∀ a, firstMatch line = some a → ∀ fresh, r.2.mac = (a.assign line fresh).mac
  host : ∀ a, firstMatch line = some a → ∀ fresh, r.2.host = (a.assign line fresh).host
  passwd : r.1 &&& Token.pass ≠ 0 →
    ∃ a, firstMatch line = some a ∧ ∀ fresh, r.2.passwd = (a.assign line fresh).passwd
  port : r.1 &&& Token.port ≠ 0 →
    ∃ a, firstMatch line = some a ∧ ∀ fresh, r.2.port = (a.assign line fresh).port
  no_port : r.1 &&& Token.port = 0 → r.2.port = o.port

/-- Failed attempts, one after the other, leave the port alone. -/
theorem foldl_assign_port {line : Bytes} {as : List Attempt}
    (h : ∀ a ∈ as, ∀ o, (a.assign line o).port = o.port) (o : Strings) :
    (as.foldl (fun o a => a.assign line o) o).port = o.port := by
  induction as generalizing o with
  | nil => rfl
  | cons a as ih =>
    have hrest := ih (fun b hb => h b (List.mem_cons_of_mem _ hb)) (a.assign line o)
    exact hrest.trans (h a (List.mem_cons_self ..) o)

theorem getTokensStrings_no_trace (line : Bytes) (o : Strings) :
    NoTrace line o (getTokensStrings line o) := by
  rw [getTokensStrings_eq]
  cases hfirst : firstMatch line with
  | none =>
    have hport : ∀ a, firstMatch line = some a → Target.port ∉ a.args := by
      intro a ha
      rw [hfirst] at ha
      cases ha
    exact
      { unmatched := fun _ => rfl
        matched := fun a ha => by rw [hfirst] at ha; cases ha
        mac := fun a ha => by rw [hfirst] at ha; cases ha
        host := fun a ha => by rw [hfirst] at ha; cases ha
        passwd := fun h => absurd (show (0 : UInt32) &&& Token.pass = 0 by decide) h
        port := fun h => absurd (show (0 : UInt32) &&& Token.port = 0 by decide) h
        no_port := fun _ => foldl_assign_port (fun a ha => failed_port hport ha) o }
  | some a =>
    have hmem : a ∈ attempts := List.mem_of_find?_eq_some hfirst
    have hmatch : a.matches line = true :=
      List.find?_some (p := fun a : Attempt => a.matches line) hfirst
    obtain ⟨hmac, hhost, hport, hpass⟩ := attempts_mask hmem
    have hall : ∀ {b}, firstMatch line = some b → b = a := by
      intro b hb
      exact Option.some.inj (hb.symm.trans hfirst)
    exact
      { unmatched := fun h => by rw [hfirst] at h; cases h
        matched := fun b hb => by rw [hall hb]
        mac := fun b hb fresh => by rw [hall hb]; exact assign_same hmem hmatch hmac _ fresh
        host := fun b hb fresh => by rw [hall hb]; exact assign_same hmem hmatch hhost _ fresh
        passwd := fun h =>
          ⟨a, hfirst, fun fresh => assign_same hmem hmatch (hpass.mp h) _ fresh⟩
        port := fun h =>
          ⟨a, hfirst, fun fresh => assign_same hmem hmatch (hport.mp h) _ fresh⟩
        no_port := fun h => by
          have hnot : Target.port ∉ a.args := fun hin => hport.mpr hin h
          have hfailed := foldl_assign_port (fun b hb =>
            failed_port (fun c hc => by rw [hall hc]; exact hnot) hb) o
          exact (assign_port_of_not_mem hnot _).trans hfailed }

/-! ## In the arrays of `macfile_parse` -/

def Outs.strings (o : Outs) : Strings := ⟨o.mac.str, o.host.str, o.port, o.passwd.str⟩

theorem map_store_ok {cap : Nat} {s : Bytes} {f : CharArray cap → Outs} {o' : Outs}
    (h : (CharArray.store s).map f = .ok o') : ∃ a : CharArray cap, a.str = s ∧ f a = o' := by
  by_cases hfit : s.length < cap
  · rw [CharArray.store_ok hfit] at h
    cases h
    exact ⟨_, rfl, rfl⟩
  · rw [CharArray.store_overflow hfit] at h
    cases h

theorem arg_strings {t : Target} {v : Value} {o o' : Outs} (h : t.arg v o = .ok o') :
    o'.strings = t.put v o.strings := by
  cases v with
  | num n => cases t <;> cases h <;> rfl
  | str s =>
    cases t with
    | port => cases h; rfl
    | mac => obtain ⟨a, rfl, rfl⟩ := map_store_ok h; rfl
    | host => obtain ⟨a, rfl, rfl⟩ := map_store_ok h; rfl
    | passwd => obtain ⟨a, rfl, rfl⟩ := map_store_ok h; rfl

theorem store_strings {args : List Target} {vs : List Value} {o o' : Outs}
    (h : store (args.map Target.arg) vs o = .ok o') :
    o'.strings = putAll (args.zip vs) o.strings := by
  induction args generalizing vs o with
  | nil => cases h; rfl
  | cons t args ih =>
    cases vs with
    | nil => cases h; rfl
    | cons v vs =>
      simp only [List.map_cons, store] at h
      split at h
      · rename_i o₁ harg
        rw [ih h, arg_strings harg]
        rfl
      · cases h

theorem runAttempts_strings {line : Bytes} {as : List Attempt} {o o' : Outs} {mask : UInt32}
    (h : runAttempts line as o = .ok (mask, o')) :
    trials line as o.strings = (mask, o'.strings) := by
  induction as generalizing o with
  | nil => cases h; rfl
  | cons a as ih =>
    simp only [runAttempts, attempt, sscanfInto] at h
    cases hs : store (a.args.map Target.arg) (sscanf line a.fmt).values o with
    | error e =>
      rw [hs] at h
      cases h
    | ok o₁ =>
      have hassign : a.assign line o.strings = o₁.strings := (store_strings hs).symm
      rw [hs] at h
      by_cases hret : (sscanf line a.fmt).ret = a.count
      · simp only [if_pos hret, Except.ok.injEq, Prod.mk.injEq] at h
        obtain ⟨rfl, rfl⟩ := h
        simp [trials, Attempt.matches, hret, hassign]
      · simp only [if_neg hret] at h
        simp [trials, Attempt.matches, hret, hassign, ih h]

/-- On a line whose host fits its array, the arrays hold the strings. -/
theorem getTokens_strings {line : Bytes} {o o' : Outs} {mask : UInt32}
    (h : getTokens line o = .ok (mask, o')) :
    getTokensStrings line o.strings = (mask, o'.strings) := by
  rw [getTokens_eq, if_neg (sscanf_comment_ret line)] at h
  rw [getTokensStrings, if_neg (sscanf_comment_ret line)]
  exact runAttempts_strings h

/-- **The failed attempts of `get_tokens` leave no trace.** On every line and for every prior
content, the port is as on entry or as the first matching format alone assigns it, and the strings
are those of that format; and so it is in the arrays of `macfile_parse`, unless the host does not
fit its array. -/
theorem getTokens_no_trace (line : Bytes) (o : Strings) (arrays : Outs) :
    NoTrace line o (getTokensStrings line o) ∧
      (((∃ e, getTokens line arrays = .error e) ∧ 255 ≤ (hostRun line).length) ∨
        ∃ mask arrays', getTokens line arrays = .ok (mask, arrays') ∧
          NoTrace line arrays.strings (mask, arrays'.strings)) := by
  refine ⟨getTokensStrings_no_trace line o, ?_⟩
  cases h : getTokens line arrays with
  | error e => exact .inl ⟨⟨e, rfl⟩, (getTokens_error_iff_hostRun line arrays).mp ⟨e, h⟩⟩
  | ok r =>
    obtain ⟨mask, arrays'⟩ := r
    refine .inr ⟨mask, arrays', rfl, ?_⟩
    rw [← getTokens_strings h]
    exact getTokensStrings_no_trace line arrays.strings

end WakeOnLan
