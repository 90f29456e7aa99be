import WakeOnLan.MacfileFormat

/-!
# WakeOnLan.MacfileStores

What `get_tokens` stores, attempt by attempt.

* `attempts`       — the four attempts, with the pointers that each passes; `getTokens_eq` says that
  `get_tokens` makes them in order.
* `attemptsMade`   — those it makes on a line: up to the first that succeeds.
* `Attempt.stores` — the bytes that an attempt stores through the pointers to arrays.
* `hostRun`        — the host characters that `HOST_FMT` finds on a line.
* `stores_fit_iff` — when every store fits its array.
-/

namespace WakeOnLan

open CLib

inductive Target where
  | mac
  | host
  | port
  | passwd
  deriving DecidableEq, Repr

/-- The arrays of `macfile_parse`, and the size of an `unsigned int`. -/
def Target.capacity : Target → Nat
  | .mac => 18
  | .host => 255
  | .port => 4
  | .passwd => 18

def Target.arg : Target → Arg
  | .mac => macArg
  | .host => hostArg
  | .port => portArg
  | .passwd => passwdArg

structure Attempt where
  fmt : List Directive
  args : List Target
  count : Nat
  mask : UInt32

def attempts : List Attempt :=
  [⟨[.space, macFmt, .space, hostFmt] ++ portFmt ++ [.space, passFmt],
      [.mac, .host, .port, .passwd], 4,
      Token.mac ||| Token.host ||| Token.port ||| Token.pass⟩,
   ⟨[.space, macFmt, .space, hostFmt, .space, passFmt],
      [.mac, .host, .passwd], 3, Token.mac ||| Token.host ||| Token.pass⟩,
   ⟨[.space, macFmt, .space, hostFmt] ++ portFmt,
      [.mac, .host, .port], 3, Token.mac ||| Token.host ||| Token.port⟩,
   ⟨[.space, macFmt, .space, hostFmt],
      [.mac, .host], 2, Token.mac ||| Token.host⟩]

def runAttempts (line : Bytes) : List Attempt → Outs → Except Fault (UInt32 × Outs)
  | [], o => .ok (0, o)
  | a :: as, o => attempt line a.fmt (a.args.map Target.arg) a.count a.mask (runAttempts line as) o

theorem getTokens_eq (line : Bytes) (o : Outs) :
    getTokens line o =
      if (sscanf line commentFmt).ret = 1 then .ok (0, o) else runAttempts line attempts o := rfl

def made (line : Bytes) : List Attempt → List Attempt
  | [] => []
  | a :: as => a :: if (sscanf line a.fmt).ret = a.count then [] else made line as

def attemptsMade (line : Bytes) : List Attempt :=
  if (sscanf line commentFmt).ret = 1 then [] else made line attempts

/-- A string is stored with its NUL; a number does not go to an array. -/
def stored : Target × Value → Option (Target × Nat)
  | (.port, _) | (_, .num _) => none
  | (t, .str s) => some (t, s.length + 1)

def Attempt.stores (a : Attempt) (line : Bytes) : List (Target × Nat) :=
  (a.args.zip (sscanf line a.fmt).values).filterMap stored

/-- A store of the attempt goes beyond its array. -/
def Attempt.Overflows (a : Attempt) (line : Bytes) : Prop :=
  ∃ x ∈ a.stores line, x.1.capacity < x.2

/-- The host characters behind the MAC characters of a line. -/
def hostRun (line : Bytes) : Bytes :=
  let s := (cstr line).dropWhile isSpace
  let mac := (s.take 17).takeWhile isMacChar
  if mac = [] then [] else ((s.drop mac.length).dropWhile isSpace).takeWhile isHostChar

/-! ## A store that does not fit is the fault of the model -/

section Faults

variable {line : Bytes} {o : Outs}

theorem arg_error_iff (t : Target) (v : Value) (o : Outs) :
    (∃ e, t.arg v o = .error e) ↔ ∃ x, stored (t, v) = some x ∧ x.1.capacity < x.2 := by
  have hfit : ∀ {cap : Nat} (s : Bytes) (f : CharArray cap → Outs),
      (∃ e, (CharArray.store s).map f = .error e) ↔ cap < s.length + 1 := by
    intro cap s f
    by_cases h : s.length < cap
    · simp [CharArray.store_ok h, Except.map]
      omega
    · simp [CharArray.store_overflow h, Except.map]
      omega
  cases v with
  | num n => cases t <;> simp [Target.arg, macArg, hostArg, portArg, passwdArg, stored]
  | str s =>
    cases t with
    | mac => simpa [Target.arg, macArg, stored, Target.capacity] using hfit s _
    | host => simpa [Target.arg, hostArg, stored, Target.capacity] using hfit s _
    | port => simp [Target.arg, portArg, stored]
    | passwd => simpa [Target.arg, passwdArg, stored, Target.capacity] using hfit s _

theorem store_error_iff (args : List Target) (vs : List Value) (o : Outs) :
    (∃ e, store (args.map Target.arg) vs o = .error e) ↔
      ∃ x ∈ (args.zip vs).filterMap stored, x.1.capacity < x.2 := by
  induction args generalizing vs o with
  | nil => simp [store]
  | cons t args ih =>
    cases vs with
    | nil => simp [store]
    | cons v vs =>
      have hmem : (∃ x ∈ ((t, v) :: args.zip vs).filterMap stored, x.1.capacity < x.2) ↔
          (∃ x, stored (t, v) = some x ∧ x.1.capacity < x.2) ∨
            ∃ x ∈ (args.zip vs).filterMap stored, x.1.capacity < x.2 := by
        cases hs : stored (t, v) with
        | none => simp [hs]
        | some x => simp [hs]
      rw [List.zip_cons_cons, hmem, ← arg_error_iff t v o, List.map_cons]
      cases harg : t.arg v o with
      | error e => simp [store, harg]
      | ok o' => simpa [store, harg] using ih vs o'

/-- The loop over the attempts, by induction on them. What an attempt finds on the line does not
depend on what the ones before it have stored. -/
theorem runAttempts_error_iff (as : List Attempt) (o : Outs) :
    (∃ e, runAttempts line as o = .error e) ↔
      ∃ a ∈ made line as, a.Overflows line := by
  induction as generalizing o with
  | nil => simp [runAttempts, made]
  | cons a as ih =>
    have hstore : (∃ e, store (a.args.map Target.arg) (sscanf line a.fmt).values o = .error e) ↔
        a.Overflows line := store_error_iff a.args (sscanf line a.fmt).values o
    cases hs : store (a.args.map Target.arg) (sscanf line a.fmt).values o with
    | error e =>
      have hrun : runAttempts line (a :: as) o = .error e := by
        simp [runAttempts, attempt, sscanfInto, hs]
      have hover := hstore.mp ⟨e, hs⟩
      simp only [hrun, made, Except.error.injEq, exists_eq', true_iff]
      exact ⟨a, List.mem_cons_self .., hover⟩
    | ok o' =>
      have hfit : ¬ a.Overflows line := by
        intro hover
        obtain ⟨e, he⟩ := hstore.mpr hover
        rw [hs] at he
        cases he
      by_cases hret : (sscanf line a.fmt).ret = a.count
      · have hrun : runAttempts line (a :: as) o = .ok (a.mask, o') := by
          simp [runAttempts, attempt, sscanfInto, hs, hret]
        simp [hrun, made, hret, hfit]
      · have hrun : runAttempts line (a :: as) o = runAttempts line as o' := by
          simp [runAttempts, attempt, sscanfInto, hs, hret]
        simp [hrun, made, hret, hfit, ih]

theorem getTokens_error_iff (line : Bytes) (o : Outs) :
    (∃ e, getTokens line o = .error e) ↔
      ∃ a ∈ attemptsMade line, a.Overflows line := by
  rw [getTokens_eq, attemptsMade, if_neg (sscanf_comment_ret line),
    if_neg (sscanf_comment_ret line), runAttempts_error_iff]

end Faults

/-! ## The host of a line -/

theorem hostRun_eq (line : Bytes) :
    hostRun line = ((fields (cstr line)).map Fields.host).getD [] := by
  cases hm : scanStr macFmt (cstr line) with
  | none =>
    have hmac : (((cstr line).dropWhile isSpace).take 17).takeWhile isMacChar = [] :=
      scanStr_none_inv hm
    simp [hostRun, fields, hm, hmac]
  | some x =>
    obtain ⟨mac, r⟩ := x
    obtain ⟨hne, hmac, hr⟩ := scanStr_inv hm
    have hrun : hostRun line = (r.dropWhile isSpace).takeWhile isHostChar := by
      simp only [hostRun]
      rw [show (((cstr line).dropWhile isSpace).take 17).takeWhile isMacChar = mac from hmac,
        if_neg hne, hr]
    rw [hrun]
    cases hh : scanStr hostFmt r with
    | none =>
      have hhost : (r.dropWhile isSpace).takeWhile isHostChar = [] := scanStr_none_inv hh
      simp [fields, hm, hh, hhost]
    | some y =>
      obtain ⟨host, r'⟩ := y
      have hhost : (r.dropWhile isSpace).takeWhile isHostChar = host := (scanStr_inv hh).2.1
      simp only [fields, hm, hh, hhost]
      split
      · rfl
      · rfl

theorem getTokens_error_iff_hostRun (line : Bytes) (o : Outs) :
    (∃ e, getTokens line o = .error e) ↔ 255 ≤ (hostRun line).length := by
  rw [hostRun_eq]
  cases hf : fields (cstr line) with
  | none =>
    obtain ⟨o', hok, -⟩ := getTokens_none hf o
    simp [hok]
  | some f =>
    by_cases hfit : f.host.length < 255
    · obtain ⟨o', hok, -⟩ := getTokens_fields hf hfit o
      simp only [hok, reduceCtorEq, exists_false, Option.map_some, Option.getD_some, false_iff]
      omega
    · have herr := getTokens_overflow hf hfit o
      simp only [herr, Except.error.injEq, exists_eq', Option.map_some, Option.getD_some, true_iff]
      omega

theorem overflows_iff (line : Bytes) :
    (∃ a ∈ attemptsMade line, a.Overflows line) ↔ 255 ≤ (hostRun line).length :=
  (getTokens_error_iff line exampleOuts).symm.trans (getTokens_error_iff_hostRun line exampleOuts)

/-- **Every store fits its array exactly when the host does.** On a line of any length, all stores
of all attempts are within the 18, 255 and 18 bytes of the arrays if and only if at most 254 host
characters stand behind its MAC. -/
theorem stores_fit_iff (line : Bytes) :
    (∀ a ∈ attemptsMade line, ∀ x ∈ a.stores line, x.2 ≤ x.1.capacity) ↔
      (hostRun line).length ≤ 254 := by
  constructor
  · intro h
    by_contra hlong
    obtain ⟨a, ha, x, hx, hover⟩ := (overflows_iff line).mpr (by omega)
    have := h a ha x hx
    omega
  · intro hshort a ha x hx
    by_contra hover
    have := (overflows_iff line).mp ⟨a, ha, x, hx, Nat.lt_of_not_le hover⟩
    omega

/-- A host of 255 characters and its NUL do not fit. -/
theorem not_stores_fit :
    ¬ ∀ a ∈ attemptsMade (ascii "0 " ++ List.replicate 255 97),
      ∀ x ∈ a.stores (ascii "0 " ++ List.replicate 255 97), x.2 ≤ x.1.capacity := by
  intro h
  obtain ⟨a, ha, x, hx, hover⟩ :=
    (overflows_iff (ascii "0 " ++ List.replicate 255 97)).mpr (by decide +kernel)
  exact absurd (h a ha x hx) (Nat.not_le_of_lt hover)

end WakeOnLan
