import Mathlib.Data.List.Nodup
import Mathlib.Data.List.TakeWhile
import WakeOnLan.Getopt

/-!
# WakeOnLan.GetoptScan

What a command line means, without an index into it and without an exchange.

* `resolve`  — the option that a name or an abbreviation means; the loop over the table finds it.
* `scanArgs` — the argument vector read once from left to right: what is found, the elements that
  are options or their arguments, and the operands.
* `Legal`    — what the caller may rely on: an option has an argument if it requires one, and none
  if it takes none.

`scanArgs_perm`, `taken_sublist` and `operands_sublist`: every element is in one of the two lists,
and both keep the order of the vector.
-/

namespace WakeOnLan

open CLib

/-! ## What is found -/

/-- One option as it is handed out: its character, its argument, and what is printed about it. -/
structure Found where
  c : UInt8
  optarg : Option Bytes
  printed : Bytes
  deriving DecidableEq, Repr

/-- An option that takes the next element for its argument, and what is printed if there is none. -/
structure Awaits where
  val : UInt8
  text : Bytes
  deriving DecidableEq, Repr

inductive Resolved where
  | unknown
  | ambiguous
  | option (p : LongOption)
  deriving DecidableEq, Repr

/-- The same but for their names. -/
def LongOption.alike (p q : LongOption) : Bool := q.hasArg == p.hasArg && q.val == p.val

/-- A full name means its option. An abbreviation means the first option it begins, if all that
it begins are alike. -/
def resolve (longopts : List LongOption) (name : Bytes) : Resolved :=
  match longopts.find? (·.name == name) with
  | some p => .option p
  | none =>
    match longopts.filter (name.isPrefixOf ·.name) with
    | [] => .unknown
    | p :: ps => if ps.all p.alike then .option p else .ambiguous

/-- Whether the character is an option, and of what kind. -/
def shortArg (optstring : Bytes) (c : UInt8) : Option HasArg :=
  match strchr optstring c with
  | none => none
  | some temp =>
    if c = 58 then none
    else if temp[1]? = some 58 then
      if temp[2]? = some 58 then some .optionalArgument else some .requiredArgument
    else some .noArgument

/-! ## The scan -/

/-- What does not change from call to call. The optstring begins with an option: `+` and `-` would
select an ordering, `:` would silence the diagnostics. -/
structure Setting where
  posixlyCorrect : Bool
  optstring : Bytes
  longopts : List LongOption
  prog : Bytes
  plain : ∀ c, optstring.head? = some c → c ≠ 43 ∧ c ≠ 45 ∧ c ≠ 58

structure Scanned where
  found : List Found
  taken : List Bytes
  operands : List Bytes
  deriving DecidableEq, Repr

section Scan

variable (S : Setting)

/-- The element `--NAME` or `--NAME=VALUE`. -/
def longElement (e : Bytes) : List Found × Option Awaits :=
  let name := (e.drop 2).takeWhile (· != 61)
  match resolve S.longopts name with
  | .ambiguous => ([⟨question, none, ambiguousOption S.prog e⟩], none)
  | .unknown => ([⟨question, none, unrecognizedOption S.prog (e.drop 2)⟩], none)
  | .option p =>
    match (e.drop 2).drop name.length with
    | [] =>
      if p.hasArg = .requiredArgument then ([], some ⟨p.val, argumentRequired S.prog e⟩)
      else ([⟨p.val, none, []⟩], none)
    | _ :: value =>
      if p.hasArg = .noArgument then ([⟨question, none, argumentNotAllowed S.prog p.name⟩], none)
      else ([⟨p.val, some value, []⟩], none)

/-- The option characters of one element. -/
def cluster : Bytes → List Found × Option Awaits
  | [] => ([], none)
  | c :: cs =>
    match shortArg S.optstring c with
    | none =>
      (⟨question, none, invalidOption S.posixlyCorrect S.prog c⟩ :: (cluster cs).1, (cluster cs).2)
    | some .noArgument => (⟨c, none, []⟩ :: (cluster cs).1, (cluster cs).2)
    | some .optionalArgument => ([⟨c, if cs = [] then none else some cs, []⟩], none)
    | some .requiredArgument =>
      if cs = [] then ([], some ⟨c, optionRequiresArgument S.prog c⟩)
      else ([⟨c, some cs, []⟩], none)

def element (e : Bytes) : List Found × Option Awaits :=
  if e[1]? = some 45 then longElement S e else cluster S (e.drop 1)

/-- What is before the vector that is left: nothing, or an option without its argument. -/
def scanArgs : Option Awaits → List Bytes → Scanned
  | some a, [] => ⟨[⟨question, none, a.text⟩], [], []⟩
  | some a, arg :: rest =>
    let s := scanArgs none rest
    { s with found := ⟨a.val, some arg, []⟩ :: s.found, taken := arg :: s.taken }
  | none, [] => ⟨[], [], []⟩
  | none, e :: rest =>
    if nonoption e then
      if S.posixlyCorrect then ⟨[], [], e :: rest⟩
      else
        let s := scanArgs none rest
        { s with operands := e :: s.operands }
    else if e = dashDash then ⟨[], [e], rest⟩
    else
      let (found, awaits) := element S e
      let s := scanArgs awaits rest
      { s with found := found ++ s.found, taken := e :: s.taken }

end Scan

/-! ## The search in the table -/

def LongMatch.resolved (m : LongMatch) : Resolved :=
  if m.ambig && !m.exact then .ambiguous
  else
    match m.pfound with
    | none => .unknown
    | some p => .option p

theorem alike_eq_false {p q : LongOption} :
    p.alike q = false ↔ p.hasArg ≠ q.hasArg ∨ p.val ≠ q.val := by
  simp only [LongOption.alike, Bool.and_eq_false_iff, beq_eq_false_iff_ne, ne_comm]

theorem eq_of_isPrefixOf {s t : Bytes} (h : s.isPrefixOf t = true) (hlen : s.length = t.length) :
    t = s :=
  ((List.isPrefixOf_iff_prefix.mp h).eq_of_length hlen).symm

theorem ne_of_not_isPrefixOf {s t : Bytes} (h : ¬ s.isPrefixOf t = true) : (t == s) = false := by
  rw [beq_eq_false_iff_ne]
  rintro rfl
  exact h (List.isPrefixOf_iff_prefix.mpr (List.prefix_refl _))

theorem ne_of_length {s t : Bytes} (h : ¬ s.length = t.length) : (t == s) = false := by
  rw [beq_eq_false_iff_ne]
  rintro rfl
  exact h rfl

/-- Behind the first match, `ambig` gathers whether the matches that follow are like it. -/
theorem matchLong_resolved_some (name : Bytes) (p : LongOption) (ps : List LongOption)
    (ambig : Bool) : (matchLong name ps ⟨some p, false, ambig⟩).resolved =
      match ps.find? (·.name == name) with
      | some q => .option q
      | none =>
        if ambig || !(ps.filter (name.isPrefixOf ·.name)).all p.alike then .ambiguous
        else .option p := by
  induction ps generalizing ambig with
  | nil => cases ambig <;> rfl
  | cons q ps ih =>
    by_cases hpre : name.isPrefixOf q.name = true
    · by_cases hlen : name.length = q.name.length
      · simp [matchLong, hlen, LongMatch.resolved, eq_of_isPrefixOf hpre hlen]
      · rw [List.find?_cons_of_neg (by simp [ne_of_length hlen]),
          List.filter_cons_of_pos (p := fun p : LongOption => name.isPrefixOf p.name) hpre,
          List.all_cons]
        cases halike : p.alike q with
        | false =>
          rw [matchLong, if_pos hpre, if_neg hlen]
          simp only [if_pos (alike_eq_false.mp halike), ih, Bool.true_or, Bool.false_and,
            Bool.not_false, Bool.or_true]
        | true =>
          have hne : ¬ (p.hasArg ≠ q.hasArg ∨ p.val ≠ q.val) := by
            rw [← alike_eq_false, halike]
            simp
          rw [matchLong, if_pos hpre, if_neg hlen]
          simp only [if_neg hne, ih, Bool.true_and]
    · rw [matchLong, if_neg hpre, ih, List.filter_cons_of_neg (by simpa using hpre),
        List.find?_cons_of_neg (by simp [ne_of_not_isPrefixOf hpre])]

theorem matchLong_resolved (name : Bytes) (longopts : List LongOption) :
    (matchLong name longopts {}).resolved = resolve longopts name := by
  induction longopts with
  | nil => rfl
  | cons p ps ih =>
    by_cases hpre : name.isPrefixOf p.name = true
    · by_cases hlen : name.length = p.name.length
      · simp [matchLong, resolve, hlen, LongMatch.resolved, eq_of_isPrefixOf hpre hlen]
      · rw [matchLong, if_pos hpre, if_neg hlen]
        simp only [matchLong_resolved_some, resolve]
        rw [List.find?_cons_of_neg (by simp [ne_of_length hlen]),
          List.filter_cons_of_pos (p := fun p : LongOption => name.isPrefixOf p.name) hpre]
        cases ps.find? (·.name == name) with
        | some q => rfl
        | none => cases h : (ps.filter (name.isPrefixOf ·.name)).all p.alike <;> simp [h]
    · rw [matchLong, if_neg hpre, ih, resolve, resolve,
        List.filter_cons_of_neg (by simpa using hpre),
        List.find?_cons_of_neg (by simp [ne_of_not_isPrefixOf hpre])]

theorem alike_self (p : LongOption) : p.alike p = true := by simp [LongOption.alike]

/-- Where no two options have one name and no two are alike, a name means the option of that name,
and an abbreviation the one option that begins with it; all other names mean none. -/
theorem matchLong_iff {longopts : List LongOption} (hnames : (longopts.map (·.name)).Nodup)
    (halike : longopts.Pairwise fun p q => p.alike q = false) (name : Bytes) (p : LongOption) :
    (matchLong name longopts {}).resolved = .option p ↔
      p ∈ longopts ∧
        (p.name = name ∨ name <+: p.name ∧ ∀ q ∈ longopts, name <+: q.name → q = p) := by
  rw [matchLong_resolved, resolve]
  cases hfind : longopts.find? (·.name == name) with
  | some q =>
    have hq : q ∈ longopts := List.mem_of_find?_eq_some hfind
    have hqname : q.name = name := by simpa using List.find?_some hfind
    constructor
    · rintro ⟨⟩
      exact ⟨hq, .inl hqname⟩
    · rintro ⟨hp, hpname | ⟨_, hunique⟩⟩
      · rw [List.inj_on_of_nodup_map hnames hq hp (hqname.trans hpname.symm)]
      · rw [hunique q hq (hqname ▸ List.prefix_refl _)]
  | none =>
    have hexact : ∀ q ∈ longopts, q.name ≠ name := by simpa using List.find?_eq_none.mp hfind
    have hfilter : ∀ q, q ∈ longopts.filter (name.isPrefixOf ·.name) ↔
        q ∈ longopts ∧ name <+: q.name := by simp [List.mem_filter]
    have hpair := halike.filter (name.isPrefixOf ·.name)
    cases hf : longopts.filter (name.isPrefixOf ·.name) with
    | nil =>
      rw [hf] at hfilter
      constructor
      · intro h
        cases h
      · rintro ⟨hp, hpname | ⟨hpre, _⟩⟩
        · exact absurd hpname (hexact p hp)
        · cases (hfilter p).mpr ⟨hp, hpre⟩
    | cons r rs =>
      rw [hf] at hfilter hpair
      have hr := (hfilter r).mp List.mem_cons_self
      have hrs : ∀ s ∈ rs, r.alike s = false := (List.pairwise_cons.mp hpair).1
      constructor
      · intro h
        dsimp only at h
        split at h
        · rename_i hall
          cases h
          refine ⟨hr.1, .inr ⟨hr.2, fun q hq hpre => ?_⟩⟩
          rcases List.mem_cons.mp ((hfilter q).mpr ⟨hq, hpre⟩) with rfl | hmem
          · rfl
          · have halike' := List.all_eq_true.mp hall q hmem
            rw [hrs q hmem] at halike'
            cases halike'
        · cases h
      · rintro ⟨hp, hpname | ⟨hpre, hunique⟩⟩
        · exact absurd hpname (hexact p hp)
        · obtain rfl := hunique r hr.1 hr.2
          have hall : rs.all r.alike = true := by
            rw [List.all_eq_true]
            intro s hs
            have hs' := (hfilter s).mp (List.mem_cons_of_mem r hs)
            rw [hunique s hs'.1 hs'.2, alike_self]
          dsimp only
          rw [if_pos hall]

/-! ## Every element once, in its order -/

section Partition

variable {S : Setting}

theorem scanArgs_perm (a : Option Awaits) (args : List Bytes) :
    ((scanArgs S a args).taken ++ (scanArgs S a args).operands).Perm args := by
  induction args generalizing a with
  | nil => cases a <;> exact .refl _
  | cons e rest ih =>
    cases a with
    | some a => exact (ih none).cons e
    | none =>
      unfold scanArgs
      split
      · split
        · exact .refl _
        · exact List.perm_middle.trans ((ih none).cons e)
      · split
        · exact .refl _
        · exact (ih _).cons e

theorem taken_sublist (a : Option Awaits) (args : List Bytes) :
    (scanArgs S a args).taken.Sublist args := by
  induction args generalizing a with
  | nil => cases a <;> exact .slnil
  | cons e rest ih =>
    cases a with
    | some a => exact (ih none).cons_cons e
    | none =>
      unfold scanArgs
      split
      · split
        · exact List.nil_sublist _
        · exact (ih none).cons e
      · split
        · exact List.singleton_sublist.mpr List.mem_cons_self
        · exact (ih _).cons_cons e

theorem operands_sublist (a : Option Awaits) (args : List Bytes) :
    (scanArgs S a args).operands.Sublist args := by
  induction args generalizing a with
  | nil => cases a <;> exact .slnil
  | cons e rest ih =>
    cases a with
    | some a => exact (ih none).cons e
    | none =>
      unfold scanArgs
      split
      · split
        · exact .refl _
        · exact (ih none).cons_cons e
      · split
        · exact List.sublist_cons_self _ _
        · exact (ih _).cons e

end Partition

/-! ## Options and their arguments -/

/-- What `optarg` may be for an option of this kind. -/
def HasArg.Accepts : HasArg → Option Bytes → Prop
  | .noArgument, optarg => optarg = none
  | .requiredArgument, optarg => ∃ arg, optarg = some arg
  | .optionalArgument, _ => True

/-- An option of the table with the argument that it takes, and nothing printed; or a question mark
with a diagnostic. -/
inductive Legal (S : Setting) (f : Found) : Prop where
  | short (kind : HasArg) (hc : shortArg S.optstring f.c = some kind) (ha : kind.Accepts f.optarg)
      (hp : f.printed = [])
  | long (p : LongOption) (hmem : p ∈ S.longopts) (hc : f.c = p.val)
      (ha : p.hasArg.Accepts f.optarg) (hp : f.printed = [])
  | refused (hc : f.c = question) (ha : f.optarg = none) (hp : f.printed ≠ [])

/-- An option that waits is legal with any argument, and something is printed without one. -/
def Awaits.Legal (S : Setting) (a : Awaits) : Prop :=
  (∀ arg, WakeOnLan.Legal S ⟨a.val, some arg, []⟩) ∧ a.text ≠ []

section Legal

variable {S : Setting}

theorem resolve_mem {longopts : List LongOption} {name : Bytes} {p : LongOption}
    (h : resolve longopts name = .option p) : p ∈ longopts := by
  unfold resolve at h
  split at h
  · rename_i q hq
    cases h
    exact List.mem_of_find?_eq_some hq
  · split at h
    · cases h
    · rename_i q qs hq
      split at h
      · cases h
        exact (List.mem_filter.mp (hq ▸ List.mem_cons_self)).1
      · cases h

theorem legal_refused {text : Bytes} (h : text ≠ []) : Legal S ⟨question, none, text⟩ :=
  .refused rfl rfl h

theorem longElement_legal (e : Bytes) :
    (∀ f ∈ (longElement S e).1, Legal S f) ∧ ∀ a ∈ (longElement S e).2, a.Legal S := by
  unfold longElement
  dsimp only
  split
  · exact ⟨by simp [legal_refused, ambiguousOption, ascii], by simp⟩
  · exact ⟨by simp [legal_refused, unrecognizedOption, ascii], by simp⟩
  · rename_i p hp
    have hmem := resolve_mem hp
    split
    · split
      · rename_i hreq
        refine ⟨by simp, ?_⟩
        rintro a ⟨⟩
        exact ⟨fun arg => .long p hmem rfl (by rw [hreq]; exact ⟨arg, rfl⟩) rfl,
          by simp [argumentRequired, ascii]⟩
      · rename_i hreq
        have haccepts : p.hasArg.Accepts none := by
          cases h : p.hasArg with
          | noArgument => rfl
          | requiredArgument => exact absurd h hreq
          | optionalArgument => trivial
        have hlegal : Legal S ⟨p.val, none, []⟩ := .long p hmem rfl haccepts rfl
        exact ⟨by simpa using hlegal, by simp⟩
    · rename_i value _
      split
      · exact ⟨by simp [legal_refused, argumentNotAllowed, ascii], by simp⟩
      · rename_i hnone
        have haccepts : p.hasArg.Accepts (some value) := by
          cases h : p.hasArg with
          | noArgument => exact absurd h hnone
          | requiredArgument => exact ⟨value, rfl⟩
          | optionalArgument => trivial
        have hlegal : Legal S ⟨p.val, some value, []⟩ := .long p hmem rfl haccepts rfl
        exact ⟨by simpa using hlegal, by simp⟩

theorem cluster_legal (cs : Bytes) :
    (∀ f ∈ (cluster S cs).1, Legal S f) ∧ ∀ a ∈ (cluster S cs).2, a.Legal S := by
  induction cs with
  | nil => exact ⟨by simp [cluster], by simp [cluster]⟩
  | cons c cs ih =>
    cases harg : shortArg S.optstring c with
    | none =>
      have hlegal : Legal S ⟨question, none, invalidOption S.posixlyCorrect S.prog c⟩ :=
        legal_refused (by simp [invalidOption])
      simp only [cluster, harg, List.forall_mem_cons]
      exact ⟨⟨hlegal, ih.1⟩, ih.2⟩
    | some kind =>
      cases kind with
      | noArgument =>
        have hlegal : Legal S ⟨c, none, []⟩ := .short .noArgument harg rfl rfl
        simp only [cluster, harg, List.forall_mem_cons]
        exact ⟨⟨hlegal, ih.1⟩, ih.2⟩
      | optionalArgument =>
        have hlegal : ∀ optarg, Legal S ⟨c, optarg, []⟩ := fun _ =>
          .short .optionalArgument harg trivial rfl
        simp only [cluster, harg, List.forall_mem_cons]
        exact ⟨⟨hlegal _, by simp⟩, by simp⟩
      | requiredArgument =>
        have hlegal : ∀ arg, Legal S ⟨c, some arg, []⟩ := fun arg =>
          .short .requiredArgument harg ⟨arg, rfl⟩ rfl
        simp only [cluster, harg]
        split
        · refine ⟨by simp, ?_⟩
          rintro a ⟨⟩
          exact ⟨hlegal, by simp [optionRequiresArgument]⟩
        · exact ⟨by simpa using hlegal cs, by simp⟩

theorem element_legal (e : Bytes) :
    (∀ f ∈ (element S e).1, Legal S f) ∧ ∀ a ∈ (element S e).2, a.Legal S := by
  unfold element
  split
  · exact longElement_legal e
  · exact cluster_legal (e.drop 1)

theorem scanArgs_legal (a : Option Awaits) (ha : ∀ a' ∈ a, a'.Legal S) (args : List Bytes) :
    ∀ f ∈ (scanArgs S a args).found, Legal S f := by
  induction args generalizing a with
  | nil =>
    cases a with
    | none => simp [scanArgs]
    | some a => simpa [scanArgs] using legal_refused (ha a rfl).2
  | cons e rest ih =>
    cases a with
    | some a =>
      simp only [scanArgs, List.forall_mem_cons]
      exact ⟨(ha a rfl).1 e, ih none (by simp)⟩
    | none =>
      unfold scanArgs
      split
      · split
        · simp
        · exact ih none (by simp)
      · split
        · simp
        · intro f hf
          rcases List.mem_append.mp hf with hf | hf
          · exact (element_legal e).1 f hf
          · exact ih _ (element_legal e).2 f hf

end Legal

end WakeOnLan
