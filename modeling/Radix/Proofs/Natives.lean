import Radix.Proofs.Calls
import Radix.Proofs.Numeral.Spelling
import Radix.Proofs.Rebasing

/-!
# Proofs/Natives — the native functions do what their table declares

    table ── params ──▸ what is taken ──run──▸ what is given ◂── returns ── table

The table says which arguments a native function takes and which tag its result has; the code checks
the arguments once more and makes the result, and nothing but these laws ties the two together.
Arguments that fit have one of four shapes (`Native.takes_of_fits`), so that no check of the code
can fail again, and what is left is what the console and the numerals refuse
(`Native.answers_of_takes`).  Three functions are known exactly: the length of a text, the square
root, and reading back the spelling of a decimal numeral (`Native.run_as_declared`).
-/

namespace Radix

/-! ## Arguments -/

theorem Tag.text_accepts {v : Value} : Tag.text.accepts v = true ↔ ∃ s, v = .text s := by
  cases v <;> simp [accepts]

theorem Tag.anyBase_accepts {v : Value} : Tag.anyBase.accepts v = true ↔ ∃ x, v = .numeral x := by
  cases v <;> simp [accepts]

namespace Native

/-- The arguments that a native function takes. -/
inductive Takes : Native → List Value → Prop
  | out (s) : Takes .out [.text s]
  | input : Takes .input []
  | len (s) : Takes .len [.text s]
  | str (x) : Takes .str [.numeral x]
  | number (s) : Takes .number [.text s]
  | sqrt (x) : Takes .sqrt [.numeral x]
  | rebase (x t) : Takes .rebase [.numeral x, .numeral t]
  | funcs : Takes .funcs []
  | wait (x) : Takes .wait [.numeral x]

theorem takes_of_fits {n : Native} {vs : List Value} (h : Eval.Fits n.params vs) : n.Takes vs := by
  unfold Eval.Fits at h
  cases n <;> simp only [params, List.forall₂_cons_left_iff, List.forall₂_nil_left_iff,
    Tag.text_accepts, Tag.anyBase_accepts] at h
  case out | len | number =>
    obtain ⟨_, _, ⟨s, rfl⟩, rfl, rfl⟩ := h
    constructor
  case str | sqrt | wait =>
    obtain ⟨_, _, ⟨x, rfl⟩, rfl, rfl⟩ := h
    constructor
  case rebase =>
    obtain ⟨_, _, ⟨x, rfl⟩, ⟨_, _, ⟨t, rfl⟩, rfl, rfl⟩, rfl⟩ := h
    constructor
  case input | funcs =>
    obtain rfl := h
    constructor

/-! ## Results -/

/-- The value is one that the table declares: unit if there is no tag, and otherwise a well-formed
value that the tag admits. -/
def Promises (n : Native) (v : Value) : Prop :=
  match n.returns with
  | none => v = .unit
  | some word => v.WellFormed ∧ ∃ tag, Tag.ofWord? word = some tag ∧ tag.accepts v = true

/-- The failures that are left on arguments that are taken. -/
inductive MayFail : Native → RunError → Prop
  | console {n cause} : n ∈ [.out, .input, .funcs] → MayFail n (.console cause)
  | numeral {n cause} : n ∈ [.number, .rebase, .wait] → MayFail n (.numeral cause)

theorem MayFail.not_total {n : Native} {e : RunError} (h : n.MayFail e) :
    n ∉ [len, str, sqrt] := by
  cases h with
  | console hn => exact (by decide : ∀ n ∈ [out, input, funcs], n ∉ [len, str, sqrt]) n hn
  | numeral hn => exact (by decide : ∀ n ∈ [number, rebase, wait], n ∉ [len, str, sqrt]) n hn

/-- The table leaves room for the result. -/
def Answers (n : Native) : Except RunError Value → Prop
  | .ok v => n.Promises v
  | .error e => n.MayFail e

section Results

variable {n : Native} {x : Numeral} (f : Frame) (c : Console)

theorem promises_text (hr : n.returns = some "str") (s : String) : n.Promises (.text s) := by
  rw [Promises, hr]
  exact ⟨trivial, .text, rfl, rfl⟩

theorem promises_decimal (hr : n.returns = some "b10") (hx : x.WellFormed) (hb : x.base = 10) :
    n.Promises (.numeral x) := by
  rw [Promises, hr]
  exact ⟨hx, .exactBase 10, rfl, decide_eq_true hb⟩

theorem promises_numeral (hr : n.returns = some "b_") (hx : x.WellFormed) :
    n.Promises (.numeral x) := by
  rw [Promises, hr]
  exact ⟨hx, .anyBase, rfl, rfl⟩

theorem answers_writing {s : String} (hr : n.returns = none) (hn : n ∈ [out, input, funcs]) :
    n.Answers (writing s c).1 := by
  unfold writing
  split
  · simp [Answers, Promises, hr]
  · exact .console hn

theorem answers_ofNumeral {y : Except NumeralError Numeral} (hn : n ∈ [number, rebase, wait])
    (h : ∀ z, y = .ok z → n.Promises (.numeral z)) : n.Answers (ofNumeral (y.map .numeral)) := by
  cases y with
  | ok z => exact h z rfl
  | error e => exact .numeral hn

theorem run_len (s : String) : ∃ x : Numeral, run .len [.text s] f c = (.ok (.numeral x), c) ∧
    x.Writes 10 s.toList.length := by
  obtain ⟨x, hx⟩ := Numeral.exists_writes (by decide : IsBase 10) s.length
  have given : run .len [.text s] f c =
      (ofNumeral ((Numeral.ofNat 10 s.length).map .numeral), c) := rfl
  rw [Numeral.ofNat_eq_ok_iff.mpr hx] at given
  exact ⟨x, given, String.length_toList ▸ hx⟩

theorem run_sqrt (hx : x.WellFormed) : ∃ z : Numeral,
    run .sqrt [.numeral x] f c = (.ok (.numeral z), c) ∧ z.Writes x.base (Nat.sqrt x.value) := by
  obtain ⟨z, hz⟩ := Numeral.exists_writes hx.1 (Nat.sqrt x.value)
  have given : run .sqrt [.numeral x] f c = (ofNumeral (x.sqrt.map .numeral), c) := rfl
  rw [hx.sqrt_eq_ok.mpr hz] at given
  exact ⟨z, given, hz⟩

theorem run_number (s : String) : run .number [.text s] f c =
    (ofNumeral ((Numeral.ofDigits 10 (Text.trim s.toList)).map .numeral), c) := rfl

/-- **What is taken is answered as the table says.** -/
theorem answers_of_takes {vs : List Value} (h : n.Takes vs) (hvs : ∀ v ∈ vs, v.WellFormed) :
    n.Answers (n.run vs f c).1 := by
  cases h with
  | out s => exact answers_writing c rfl (by simp)
  | input =>
    simp only [run]
    split
    · exact promises_text (n := input) rfl _
    · exact .console (by simp)
  | len s =>
    obtain ⟨x, hx, writes⟩ := run_len f c s
    rw [hx]
    exact promises_decimal (n := len) rfl writes.wellFormed writes.base_eq
  | str x => exact promises_text (n := str) rfl _
  | number s =>
    rw [run_number]
    refine answers_ofNumeral (by simp) fun z hz => ?_
    have base : z.base = 10 := by rw [(Numeral.ofDigits_eq_ok.mp hz).2.2.2]
    exact promises_decimal rfl (Numeral.wellFormed_of_ofDigits hz) base
  | sqrt x =>
    obtain ⟨z, hz, writes⟩ := run_sqrt f c (hvs (.numeral x) (by simp))
    rw [hz]
    exact promises_numeral (n := sqrt) rfl writes.wellFormed
  | rebase x t =>
    show rebase.Answers (rebased [.numeral x, .numeral t])
    rw [rebased_eq (hvs (.numeral x) (by simp)) (hvs (.numeral t) (by simp))]
    exact answers_ofNumeral (by simp) fun z hz =>
      promises_numeral rfl (Numeral.wellFormed_of_ofNat hz)
  | funcs => exact answers_writing c rfl (by simp)
  | wait x =>
    simp only [run]
    split
    · rfl
    · next e he =>
      -- The argument is a numeral, so it is its value that is refused.
      obtain ⟨cause, -, rfl⟩ := ofNumeral_eq_error.mp he
      exact .numeral (by simp)

end Results

/-! ## Spellings -/

theorem trim_of_not_blank {cs : List Char} (h : ∀ c ∈ cs, Text.isBlank c = false) :
    Text.trim cs = cs := by
  have kept {ds : List Char} (hd : ∀ d ∈ ds, Text.isBlank d = false) :
      ds.dropWhile Text.isBlank = ds :=
    List.dropWhile_eq_self_iff.mpr fun hl => by simp [hd _ (List.getElem_mem hl)]
  rw [Text.trim, kept h, Text.dropEnd, kept fun c hc => h c (List.mem_reverse.mp hc),
    List.reverse_reverse]

/-- **A decimal numeral that is spelled reads back**, with its leading zeros. -/
theorem number_of_str {x : Numeral} (hx : x.WellFormed) (hb : x.base = 10) (f : Frame)
    (c : Console) : run .number [.text (toString x)] f c = (.ok (.numeral x), c) := by
  have spelled : (toString x).toList = x.digits := by
    rw [← (if_pos hb : x.spelling = x.digits)]
    exact String.toList_ofList
  have decimals : (digitsOf 10).all (fun d => !Text.isBlank d) = true := by decide
  have trimmed : Text.trim x.digits = x.digits := trim_of_not_blank fun d hd => by
    simpa using List.all_eq_true.mp decimals d (hb ▸ hx.2.2 d hd)
  have small : x.small = x := Numeral.small_eq_self_iff.mpr fun d hd =>
    not_isUpper_of_mem_digitsOf (by omega) (hx.2.2 d hd)
  rw [run_number, spelled, trimmed, ← hb, hx.ofDigits, small]
  rfl

/-- **Native functions do what their table declares.**

Whatever the frame and the console, take any well-formed values that are accepted as arguments of a
native function.  If it gives a value, that is unit where the table has no tag for the result, and
otherwise well formed and admitted by the tag.  It never fails because of the kind of an argument:
writing, reading and listing fail by the console alone, a number that is read, rebased or waited for
by a refusal of numerals alone, and the others not at all.  The length of a text is the decimal
numeral of the number of its characters, the square root is rounded down, in the base of the
argument, and a decimal numeral that is spelled reads back as it was. -/
theorem run_as_declared (f : Frame) (c : Console) :
    (∀ (n : Native) (vs : List Value) (offset : Nat), (∀ v ∈ vs, v.WellFormed) →
      Eval.checkArguments n.toFunction vs offset = .ok () →
      (∀ v, (n.run vs f c).1 = .ok v → n.Promises v) ∧
      (∀ e, (n.run vs f c).1 = .error e → n.MayFail e ∧ (∀ op k k', e ≠ .operands op k k') ∧
        ∀ tag found, e ≠ .nativeArgument tag found) ∧
      (n ∈ [len, str, sqrt] → ∃ v, (n.run vs f c).1 = .ok v)) ∧
    (∀ s : String, ∃ x : Numeral, run .len [.text s] f c = (.ok (.numeral x), c) ∧
      x.Writes 10 s.toList.length) ∧
    (∀ x : Numeral, x.WellFormed → ∃ z : Numeral,
      run .sqrt [.numeral x] f c = (.ok (.numeral z), c) ∧ z.WellFormed ∧ z.base = x.base ∧
        z.value * z.value ≤ x.value ∧ x.value < (z.value + 1) * (z.value + 1)) ∧
    ∀ x : Numeral, x.WellFormed → x.base = 10 → ∃ v, run .str [.numeral x] f c = (.ok v, c) ∧
      run .number [v] f c = (.ok (.numeral x), c) := by
  refine ⟨fun n vs offset hvs hchecked => ?_, run_len f c, fun x hx => ?_, fun x hx hb => ?_⟩
  · have answers : n.Answers (n.run vs f c).1 :=
      answers_of_takes f c (takes_of_fits (Eval.checkArguments_eq_ok.mp hchecked)) hvs
    refine ⟨fun v hv => ?_, fun e he => ?_, fun hn => ?_⟩
    · rwa [hv] at answers
    · have fails : n.MayFail e := by rwa [he] at answers
      refine ⟨fails, fun op k k' => ?_, fun tag found => ?_⟩
      · cases fails <;> simp
      · cases fails <;> simp
    · cases hr : (n.run vs f c).1 with
      | ok v => exact ⟨v, rfl⟩
      | error e =>
        rw [hr] at answers
        exact absurd hn answers.not_total
  · obtain ⟨z, hz, writes⟩ := run_sqrt f c hx
    refine ⟨z, hz, writes.wellFormed, writes.base_eq, ?_, ?_⟩
    · exact writes.value_eq ▸ Nat.sqrt_le x.value
    · exact writes.value_eq ▸ Nat.lt_succ_sqrt x.value
  · exact ⟨.text (toString x), rfl, number_of_str hx hb f c⟩

/-- A frame and a console to run native functions on. -/
def bareFrame : Frame := Frame.initial { text := [], filename := "", origin := "" }

def bareConsole : Console := { feed := .script [] }

/-- Rebasing to base 65 is accepted and then refused by numerals; characters of one, two and four
bytes are three; the root of 255 is rounded down in base 16; and leading zeros are read back. -/
theorem run_as_declared_bare :
    (Eval.checkArguments rebase.toFunction
        [.numeral ⟨16, ['f', 'f']⟩, .numeral ⟨10, ['6', '5']⟩] 0 = .ok () ∧
      (run .rebase [.numeral ⟨16, ['f', 'f']⟩, .numeral ⟨10, ['6', '5']⟩] bareFrame bareConsole).1 =
        .error (.numeral (.baseOutOfRange 65)) ∧
      rebase.MayFail (.numeral (.baseOutOfRange 65))) ∧
    (∃ x : Numeral, run .len [.text "añ𝄞"] bareFrame bareConsole =
      (.ok (.numeral x), bareConsole) ∧ x.Writes 10 3) ∧
    (∃ z : Numeral, run .sqrt [.numeral ⟨16, ['0', 'f', 'f']⟩] bareFrame bareConsole =
      (.ok (.numeral z), bareConsole) ∧ z.WellFormed ∧ z.base = 16 ∧ z.value * z.value ≤ 255 ∧
        255 < (z.value + 1) * (z.value + 1)) ∧
    ∃ v, run .str [.numeral ⟨10, ['0', '0', '7']⟩] bareFrame bareConsole = (.ok v, bareConsole) ∧
      run .number [v] bareFrame bareConsole =
        (.ok (.numeral ⟨10, ['0', '0', '7']⟩), bareConsole) := by
  have hex : Numeral.WellFormed ⟨16, ['f', 'f']⟩ := Numeral.wellFormed_iff_all.mpr (by decide)
  have base : Numeral.WellFormed ⟨10, ['6', '5']⟩ := Numeral.wellFormed_iff_all.mpr (by decide)
  have long : Numeral.WellFormed ⟨16, ['0', 'f', 'f']⟩ := Numeral.wellFormed_iff_all.mpr (by decide)
  have seven : Numeral.WellFormed ⟨10, ['0', '0', '7']⟩ :=
    Numeral.wellFormed_iff_all.mpr (by decide)
  have both : ∀ v ∈ [Value.numeral ⟨16, ['f', 'f']⟩, .numeral ⟨10, ['6', '5']⟩], v.WellFormed := by
    rw [List.forall_mem_cons, List.forall_mem_singleton]
    exact ⟨hex, base⟩
  have refused : (run .rebase [.numeral ⟨16, ['f', 'f']⟩, .numeral ⟨10, ['6', '5']⟩] bareFrame
      bareConsole).1 = .error (.numeral (.baseOutOfRange 65)) :=
    (rebased_eq_error hex base).mpr ⟨by decide, rfl⟩
  obtain ⟨declared, length, root, back⟩ := run_as_declared bareFrame bareConsole
  exact ⟨⟨rfl, refused, ((declared .rebase _ 0 both rfl).2.1 _ refused).1⟩, length _, root _ long,
    back _ seven rfl⟩

end Native

end Radix
