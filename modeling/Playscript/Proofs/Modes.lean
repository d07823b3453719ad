import Mathlib.Data.Int.Bitwise
import Playscript.Proofs.Emissions
import Playscript.Proofs.OctalNumbers

/-! # Modes under a mask

    A mask is an integer of any size and sign, and a mode is what it leaves of a full mode, bit by
    bit: the full mode and not the mask (`unmasked_eq_land`), in four octal digits
    (`octalText_isOctal`).  The full mode of a directory is `0777`, and that of anything else
    `0666`.  The mask in effect for a deed is that of the last `umask` among the deeds before it
    (`Log.umask`).  So each task for a new directory, file, link or line has the mode that the
    deeds before it say (`modes_follow_umask`). -/

namespace Playscript

open Shell (Node)

/-! ## What a mask leaves -/

/-- **What a mask of any size and sign leaves**: the full mode and not the mask. -/
theorem unmasked_eq_land {full : Nat} (hfull : full < 2 ^ 9) (mask : Int) :
    (unmasked full mask : Int) = Int.land full (Int.lnot mask) := by
  have hbits : full % 2 ^ 9 = full := Nat.mod_eq_of_lt hfull
  cases mask with
  | ofNat k =>
      have hmask : ((-Int.ofNat k - 1) % 512).toNat = 2 ^ 9 - (k % 2 ^ 9 + 1) := by
        have := Nat.mod_lt k (show 0 < 512 by decide)
        simp only [Int.ofNat_eq_natCast]
        omega
      show ((full &&& ((-Int.ofNat k - 1) % 512).toNat : Nat) : Int) = (full.ldiff k : Nat)
      rw [hmask, Nat.cast_inj]
      refine Nat.eq_of_testBit_eq fun i => ?_
      rw [Nat.testBit_and, Nat.testBit_two_pow_sub_succ (Nat.mod_lt k (by decide)),
        Nat.testBit_ldiff, Nat.testBit_mod_two_pow]
      -- above the full mode there is no bit on either side
      by_cases hi : i < 9
      · simp [hi]
      · have hlarge : 2 ^ 9 ≤ 2 ^ i := Nat.pow_le_pow_right (by decide) (by omega)
        have hzero : full.testBit i = false :=
          Nat.testBit_lt_two_pow (Nat.lt_of_lt_of_le hfull hlarge)
        simp [hzero]
  | negSucc k =>
      have hmask : ((-Int.negSucc k - 1) % 512).toNat = k % 2 ^ 9 := by omega
      show ((full &&& ((-Int.negSucc k - 1) % 512).toNat : Nat) : Int) = (full &&& k : Nat)
      rw [hmask, Nat.cast_inj]
      have hfits : full &&& k < 2 ^ 9 := Nat.lt_of_le_of_lt Nat.and_le_left hfull
      rw [← hbits, ← Nat.and_mod_two_pow, hbits, Nat.mod_eq_of_lt hfits]

/-- What is left has no bit in common with the mask. -/
theorem land_unmasked {full : Nat} (hfull : full < 2 ^ 9) (mask : Int) :
    Int.land (unmasked full mask) mask = 0 := by
  rw [unmasked_eq_land hfull]
  cases mask with
  | ofNat k =>
      show ((full.ldiff k &&& k : Nat) : Int) = 0
      rw [Nat.cast_eq_zero]
      exact Nat.eq_of_testBit_eq fun i => by simp [Nat.testBit_ldiff]
  | negSucc k =>
      show (((full &&& k).ldiff k : Nat) : Int) = 0
      rw [Nat.cast_eq_zero]
      exact Nat.eq_of_testBit_eq fun i => by simp [Nat.testBit_ldiff]

theorem fullMode_lt (directory : Bool) : fullMode directory < 2 ^ 9 := by
  cases directory <;> decide

/-- What a mask leaves of a mode is what it leaves of a directory's, without what only
    directories have. -/
theorem unmasked_eq_and (directory : Bool) (mask : Int) :
    unmasked (fullMode directory) mask = unmasked (fullMode true) mask &&& fullMode directory := by
  have hpart : fullMode directory = fullMode true &&& fullMode directory := by
    cases directory <;> decide
  rw [unmasked, unmasked, Nat.and_right_comm, ← hpart]

theorem modeValue_text (mask : String) (directory : Bool) :
    modeValue (.text mask) directory = ((modeUnder mask directory).map Value.text).getD .null := by
  have htext : (Value.text mask).text?.bind (modeUnder · directory) = modeUnder mask directory :=
    rfl
  rw [modeValue, htext]
  cases modeUnder mask directory with
  | none => rfl
  | some mode => rfl

theorem modeUnder_isOctal {mask : String} {m : Int} (h : Text.octal? mask = some m)
    (directory : Bool) : ∃ text, modeUnder mask directory = some text ∧
      Text.IsOctal 4 text (unmasked (fullMode directory) m) := by
  refine ⟨_, by rw [modeUnder, h]; rfl, Text.octalText_isOctal (by decide) ?_⟩
  calc unmasked (fullMode directory) m
      ≤ fullMode directory := Nat.and_le_left
    _ < 2 ^ 9 := fullMode_lt directory
    _ ≤ 8 ^ 4 := by decide

/-! ## The mode of a task -/

namespace Task

/-- An argument of a module that a task uses. -/
def argument? (t : Task) (module key : String) : Option Value :=
  match t.get? module with
  | some (.map arguments) => Entries.field? arguments key
  | _ => none

/-- The mode that a task gives a file, a directory or the file of a line. -/
def mode? (t : Task) : Option Value :=
  (t.argument? "ansible.builtin.file" "mode").or (t.argument? "ansible.builtin.lineinfile" "mode")

theorem mode?_guard (t : Task) (condition : String) : (t.guard condition).mode? = t.mode? := by
  have hsame : ∀ module, module ≠ "when" →
      (t.guard condition).argument? module "mode" = t.argument? module "mode" := by
    intro module hmodule
    have hget : (t.guard condition).get? module = t.get? module :=
      Entries.get?_set_of_ne t.fields _ (fun heq => hmodule (Scalar.text.inj heq))
    rw [argument?, argument?, hget]
  rw [mode?, mode?, hsame _ (by decide), hsame _ (by decide)]

/-- The mode of a task is what a mask leaves: four octal digits, with the bits of `0777` for a
    directory and of `0666` for anything else that the mask does not have, hence none of the
    mask's.  The mode of anything else is that of a directory without the bits that `0666` lacks.
    There is no mode if the mask is no number. -/
def HasModeUnder (t : Task) (mask : String) (directory : Bool) : Prop :=
  match Text.octal? mask with
  | none => t.mode? = some .null
  | some m => ∃ text n, t.mode? = some (.text text) ∧ Text.IsOctal 4 text n ∧
      (n : Int) = Int.land (if directory then 0o777 else 0o666) (Int.lnot m) ∧
      Int.land n m = 0 ∧
      (directory = false → ∃ k : Nat, (k : Int) = Int.land 0o777 (Int.lnot m) ∧ n = k &&& 0o666)

/-- The value that stands for a mask in a task is the mode under this mask, or null where there is
    none. -/
theorem hasModeUnder_of_mode? {t : Task} {mask : String} {directory : Bool}
    (h : t.mode? = some (modeValue (.text mask) directory)) : t.HasModeUnder mask directory := by
  unfold HasModeUnder
  cases hoctal : Text.octal? mask with
  | none =>
      have hnone : modeUnder mask directory = none := by rw [modeUnder, hoctal]; rfl
      rw [h, modeValue_text, hnone]
      rfl
  | some m =>
      obtain ⟨text, htext, hdigits⟩ := modeUnder_isOctal hoctal directory
      refine ⟨text, _, ?_, hdigits, ?_, land_unmasked (fullMode_lt directory) m, ?_⟩
      · rw [h, modeValue_text, htext]
        rfl
      · rw [unmasked_eq_land (fullMode_lt directory) m]
        cases directory <;> rfl
      · rintro rfl
        exact ⟨_, unmasked_eq_land (fullMode_lt true) m, unmasked_eq_and false m⟩

end Task

namespace Session

/-! ## The mask in effect -/

/-- The mask that a deed sets. -/
def Deed.mask? (d : Deed) : Option String :=
  match d.verb, d.invocation.sorted.operands with
  | .umask, text :: _ => some (d.session.vars.interpret .plain text)
  | _, _ => none

/-- The mask in effect behind deeds: that of the last `umask`, or the one at the start. -/
def maskInEffect (deeds : List Deed) : String :=
  ((deeds.filterMap Deed.mask?).getLast?).getD "022"

/-- Whether a deed makes a directory (`true`) or a file, a link or a line in a file (`false`). -/
def Deed.creates? (d : Deed) : Option Bool :=
  match d.verb with
  | .mkdir => some true
  | .touch | .ln => some false
  | .echo =>
    match d.invocation.redirection with
    | some (">>", _) => some false
    | _ => none
  | _ => none

/-- A deed changes the mask if it is an `umask`, and then to its operand. -/
theorem umask_deed {verb : Verb} {inv : Invocation} {t : Session} (named : inv.verb? = some verb) :
    ((perform verb inv).after t).umask
      = ((Deed.mask? ⟨verb, inv, t⟩).map Value.text).getD t.umask := by
  show ((perform verb inv).after t).scope.umask = _
  rw [(perform_does named).scope t, invocationEffects, named, Deed.mask?]
  cases verb with
  | umask =>
      cases hoperands : inv.sorted.operands with
      | nil => simp [Invocation.operand, hoperands, Scope.applyAll, scope]
      | cons text rest =>
          simp [Invocation.operand, hoperands, Scope.applyAll, Effect.apply, scope]
  | exporting =>
      cases inv.operand 0 with
      | error f => rfl
      | ok word =>
          cases hsplit : splitAssignment word with
          | none => simp [hsplit, Scope.applyAll, scope]
          | some pair => simp [hsplit, Scope.applyAll, Effect.apply, scope]
  | _ => rfl

/-- **The mask at the end of the way is that of the last `umask` on it.** -/
theorem Log.umask {s t : Session} {deeds : List Deed} (h : Log s deeds t) :
    t.umask = (((deeds.filterMap Deed.mask?).getLast?).map Value.text).getD s.umask := by
  induction h with
  | start => rfl
  | passing _ passing ih => rw [passing.umask, ih]
  | @deed s t deeds log verb inv named done ih =>
      rw [umask_deed named, ih, List.filterMap_append, List.getLast?_append]
      cases hmask : Deed.mask? ⟨verb, inv, t⟩ with
      | none => simp [hmask]
      | some mask => simp [hmask]
  | @guarded s t u deeds body log within verdict ih ihWithin =>
      show u.umask = _
      rw [ihWithin, ih, List.filterMap_append, List.getLast?_append]
      cases (body.filterMap Deed.mask?).getLast? with
      | none => rfl
      | some mask => rfl

/-- A deed that creates something adds one task, with the mode under the mask of its session. -/
theorem Deed.tasks_of_creates {d : Deed} {directory : Bool}
    (hdone : (perform d.verb d.invocation).outcome d.session = .ok ())
    (hcreates : d.creates? = some directory) :
    ∃ bare, d.tasks = [bare] ∧ bare.mode? = some (modeValue d.session.umask directory) := by
  obtain ⟨verb, inv, s⟩ := d
  cases verb with
  | mkdir =>
      obtain rfl : true = directory := Option.some.inj hcreates
      obtain ⟨path, rest, h⟩ := first_operand hdone (show "mkdir" ∈ _ by decide)
      exact ⟨_, newTasks_withTask (run_mkdirCommand s h), rfl⟩
  | touch =>
      obtain rfl : false = directory := Option.some.inj hcreates
      obtain ⟨path, rest, h⟩ := first_operand hdone (show "touch" ∈ _ by decide)
      exact ⟨_, newTasks_withTask (run_touchCommand_template s h), rfl⟩
  | ln =>
      obtain rfl : false = directory := Option.some.inj hcreates
      obtain ⟨src, dest, rest, h⟩ := two_operands hdone (show "ln" ∈ _ by decide)
      exact ⟨_, newTasks_withTask (run_linkCommand s h), rfl⟩
  | echo =>
      obtain ⟨text, rest, h⟩ := first_operand hdone (show "echo" ∈ _ by decide)
      simp only [Deed.creates?] at hcreates
      split at hcreates
      next htarget =>
        obtain rfl : false = directory := Option.some.inj hcreates
        exact ⟨_, newTasks_withTask (run_echoCommand_append s h htarget), rfl⟩
      next => exact nomatch hcreates
  | _ => exact nomatch hcreates

/-- **Modes follow the mask in effect.**  From a session in which nothing has been done, and
    through whatever trees, some of which may fail, each task is that of a deed, as it was added
    or on a condition.  A deed that makes a directory, a file, a link or a line in a file adds one
    task, and its mode is what the mask of the last `umask` before the deed leaves of the full
    mode, or `022` if there was none.  Octal digits are the mask that they write, and with a minus
    in front the negative of it; a text with anything in it that no number has is no mask. -/
theorem modes_follow_umask (settings : Settings) (registers : Registers) (trees : List Node) :
    let s := fresh settings registers
    List.Forall₂ Task.StemsFrom (s.goThrough trees).tasks
      ((runDeeds trees s).flatMap Deed.tasks) ∧
    (∀ before d behind directory, runDeeds trees s = before ++ d :: behind →
      d.creates? = some directory →
      ∃ bare, d.tasks = [bare] ∧ ∀ task : Task, task.StemsFrom bare →
        task.HasModeUnder (maskInEffect before) directory) ∧
    (∀ digits width n, digits ≠ "" → Text.IsOctal width digits n →
      Text.octal? digits = some (n : Int) ∧ Text.octal? ("-" ++ digits) = some (-(n : Int))) ∧
    ∀ mask m, Text.octal? mask = some m → ∀ c ∈ mask.toList, Text.padsNumber c = true ∨
      c ∈ ['+', '-', '_', 'o', 'O'] ∨ ∃ d < 8, Text.digitValue? c = some d := by
  intro s
  have hlog : Log s (runDeeds trees s) (s.goThrough trees) := runDeeds_log trees s
  refine ⟨hlog.tasks, ?_, fun digits width n => Text.octal?_of_isOctal,
    fun mask m => Text.chars_of_octal?⟩
  intro before d behind directory hsplit hcreates
  obtain ⟨hbefore, -, hdone⟩ := hlog.done_in hsplit
  obtain ⟨bare, htasks, hmode⟩ := Deed.tasks_of_creates hdone hcreates
  have hmask : d.session.umask = .text (maskInEffect before) := by
    rw [hbefore.umask, maskInEffect]
    cases (before.filterMap Deed.mask?).getLast? with
    | none => rfl
    | some mask => rfl
  refine ⟨bare, htasks, fun task hstems => Task.hasModeUnder_of_mode? ?_⟩
  rw [← hmask, ← hmode]
  exact hstems.eq_of_guard Task.mode?_guard

/-- A file that is touched behind `umask 027` has the mode `0640`. -/
theorem touch_behind_umask :
    ∃ before d, runDeeds [.command [.word "umask" [], .word "027" []],
        .command [.word "touch" [], .word "/f" []]] (fresh {} {}) = before ++ d :: [] ∧
      d.creates? = some false ∧ maskInEffect before = "027" ∧
      ∃ bare, d.tasks = [bare] ∧ bare.HasModeUnder "027" false ∧
        bare.mode? = some (.text "0640") := by
  have hdeeds : ∃ first second, runDeeds [.command [.word "umask" [], .word "027" []],
        .command [.word "touch" [], .word "/f" []]] (fresh {} {}) = [first] ++ second :: [] ∧
      second.creates? = some false ∧ maskInEffect [first] = "027" ∧
      second.tasks.map Task.mode? = [some (.text "0640")] :=
    ⟨_, _, rfl, rfl, by decide +kernel, rfl⟩
  obtain ⟨first, second, hsplit, hcreates, hmask, hmodes⟩ := hdeeds
  obtain ⟨bare, htasks, hmode⟩ :=
    (modes_follow_umask {} {} _).2.1 [first] second [] false hsplit hcreates
  rw [htasks] at hmodes
  exact ⟨[first], second, hsplit, hcreates, hmask, bare, htasks, hmask ▸ hmode bare (.refl bare),
    (List.cons.inj hmodes).1⟩

end Session

end Playscript
