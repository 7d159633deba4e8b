import Radix.Proofs.Eval.Occurs

/-!
# Proofs/Listing — the functions in sight, by name

A table holds each name once, and a table of functions that only declarations have changed holds
every function under its own name: natives are entered so, a declaration replaces what it names, and
a call works on a copy.  Hence the names of the functions are distinct wherever a session comes by,
sorting by name leaves no choice, and the listing does not depend on the order of the table.
-/

namespace Radix

namespace Table

variable {α : Type} {t : Table α} {name : String} {v : α}

/-! ## Distinct names -/

theorem map_fst_insertEntry (name : String) (v : α) (es : List (String × α)) :
    (insertEntry name v es).map (·.1) =
      if name ∈ es.map (·.1) then es.map (·.1) else es.map (·.1) ++ [name] := by
  induction es with
  | nil => rfl
  | cons e es ih =>
    by_cases h : e.1 = name
    · simp [insertEntry, h]
    · have hne : name ≠ e.1 := fun h' => h h'.symm
      simp only [insertEntry, h, if_false, List.map_cons, ih, List.mem_cons, hne, false_or]
      split <;> rfl

theorem nodup_names_insert (h : t.names.Nodup) : (t.insert name v).names.Nodup := by
  unfold names insert at *
  rw [map_fst_insertEntry]
  split
  · exact h
  · next hn => exact List.nodup_append.mpr ⟨h, by simp, fun a ha b hb => by grind⟩

/-- **A table made of a list holds each name once.** -/
theorem nodup_names_ofList (es : List (String × α)) : (ofList es).names.Nodup := by
  have insertAll : ∀ (es : List (String × α)) (t : Table α), t.names.Nodup →
      (es.foldl (fun t e => t.insert e.1 e.2) t).names.Nodup := by
    intro es
    induction es with
    | nil => exact fun t ht => ht
    | cons e es ih => exact fun t ht => ih _ (nodup_names_insert ht)
  exact insertAll es empty List.nodup_nil

/-- What is entered under a name is what the name holds. -/
theorem mem_entries_iff (h : t.names.Nodup) : (name, v) ∈ t.entries ↔ t.get? name = some v := by
  obtain ⟨es⟩ := t
  unfold get? names at *
  induction es with
  | nil => simp
  | cons e es ih =>
    obtain ⟨k, w⟩ := e
    obtain ⟨hk, hes⟩ := List.nodup_cons.mp h
    rw [List.mem_cons, ih hes, List.lookup_cons]
    by_cases hn : name = k
    · subst hn
      -- Nothing is entered under the first name again.
      have fresh : es.lookup name ≠ some v := fun hv =>
        hk (List.mem_map_of_mem (f := (·.1)) ((ih hes).mpr hv))
      simp [fresh, eq_comm]
    · have hb : (name == k) = false := by simpa using hn
      simp [hn, hb]

theorem mem_values_iff (h : t.names.Nodup) : v ∈ t.values ↔ ∃ name, t.get? name = some v := by
  simp [values, ← mem_entries_iff h]

/-! ## Functions under their names -/

/-- Every function of the table stands under its own name, and no name twice. -/
structure Named (t : Table Function) : Prop where
  distinct : t.names.Nodup
  name_eq {name : String} {f : Function} : t.get? name = some f → f.name = name

variable {t : Table Function}

theorem Named.insert (h : t.Named) (f : Function) : (t.insert f.name f).Named where
  distinct := nodup_names_insert h.distinct
  name_eq hg := by
    rw [get?_insert] at hg
    split at hg
    · next hn => rw [hn, Option.some.inj hg]
    · exact h.name_eq hg

theorem Named.names_values (h : t.Named) : t.values.map (·.name) = t.names := by
  simp only [values, names, List.map_map]
  exact List.map_congr_left fun e he => h.name_eq ((mem_entries_iff h.distinct).mp he)

end Table

/-! ## Sorting by name -/

namespace Native

variable {t : Table Function}

theorem mem_sorted {f : Function} : f ∈ sorted t ↔ f ∈ t.values :=
  (List.mergeSort_perm _ _).mem_iff

theorem sorted_pairwise (t : Table Function) : (sorted t).Pairwise (·.name ≤ ·.name) := by
  have h : (sorted t).Pairwise fun f g => decide (f.name ≤ g.name) = true :=
    List.pairwise_mergeSort (fun f g h => by simpa using String.le_trans)
      (fun f g => by simpa using String.le_total f.name g.name) t.values
  simpa using h

/-- Under distinct names the order is strict. -/
theorem sorted_increasing (h : t.Named) : (sorted t).Pairwise (·.name < ·.name) := by
  have distinct : ((sorted t).map (·.name)).Nodup := by
    have perm : ((sorted t).map (·.name)).Perm (t.values.map (·.name)) :=
      (List.mergeSort_perm _ _).map _
    rw [perm.nodup_iff, h.names_values]
    exact h.distinct
  refine (sorted_pairwise t).imp₂ (fun f g hle hne => ?_) (List.pairwise_map.mp distinct)
  exact Std.lt_of_le_of_ne hle hne

/-- **Only the entries count, not their order.** -/
theorem sorted_of_perm {u : Table Function} (h : t.Named) (hp : u.entries.Perm t.entries) :
    sorted u = sorted t := by
  have values : u.values.Perm t.values := hp.map _
  refine List.Perm.eq_of_pairwise ?_ (sorted_pairwise _) (sorted_pairwise _)
    ((List.mergeSort_perm _ _).trans (values.trans (List.mergeSort_perm _ _).symm))
  -- Two functions of one name are the one that the name holds.
  intro f g hf hg hfg hgf
  obtain ⟨k, hk⟩ := (Table.mem_values_iff h.distinct).mp (values.mem_iff.mp (mem_sorted.mp hf))
  obtain ⟨l, hl⟩ := (Table.mem_values_iff h.distinct).mp (mem_sorted.mp hg)
  have same : k = l := by
    rw [← h.name_eq hk, ← h.name_eq hl]
    exact String.le_antisymm hfg hgf
  rw [same, hl] at hk
  exact (Option.some.inj hk).symm

theorem run_funcs (args : List Value) (frame : Frame) (console : Console) :
    funcs.run args frame console = writing (listing frame.functions) console := rfl

end Native

/-! ## Wherever a session comes by -/

/-- Functions stand under their names; all else may be any. -/
def named : Discipline Unit where
  top := ()
  inBranch _ _ := ()
  inLoop _ _ := ()
  expr _ _ := True
  value _ := True
  state s := s.frame.functions.Named
  failure _ := True
  jump _ _ _ := True

theorem named_lawful : named.Lawful where
  text _ _ _ := trivial
  assign _ := trivial
  binary _ := ⟨trivial, trivial⟩
  call _ _ _ := trivial
  ret _ := trivial
  branch _ := ⟨trivial, fun _ _ => trivial, fun _ _ => trivial⟩
  whileLoop _ := ⟨trivial, fun _ _ => trivial⟩
  loop _ _ _ := trivial
  body _ _ _ _ _ := trivial
  bind hs _ := hs
  deeper hs := hs
  leave hs _ := hs
  declare _ _ hs := hs.insert _
  console hs _ _ := hs
  report _ _ hs := hs

theorem Frame.initial_named (source : SourceUnit) : (initial source).functions.Named where
  distinct := Table.nodup_names_ofList _
  name_eq h := by
    obtain ⟨n, rfl, rfl⟩ := native_of_get?_initial h
    rfl

theorem Occurs.named {P : Expr → Prop} {t : State} (ht : Occurs P t) : t.frame.functions.Named :=
  Discipline.occurs_keeps (c := ()) named_lawful (fun source _ => Frame.initial_named source)
    (fun _ _ => trivial) (fun _ _ _ hs => hs) ht

/-- **The listing of functions.**  Wherever a session of read statements comes by, each function in
sight stands under its own name, and `funcs` writes the signatures of exactly these functions, in
strictly increasing order of their names, whatever the order of the table. -/
theorem funcs_lists_each_once {t : State} (ht : Occurs Expr.Parsed t) :
    (∀ name f, t.frame.functions.get? name = some f → f.name = name) ∧
      ∃ fs : List Function, fs.Pairwise (·.name < ·.name) ∧
        (∀ f, f ∈ fs ↔ ∃ name, t.frame.functions.get? name = some f) ∧
        ∀ frame : Frame, frame.functions.entries.Perm t.frame.functions.entries →
          ∀ args console, Native.funcs.run args frame console =
            Native.writing ("Available functions: " ++
              ", ".intercalate (fs.map Function.signature) ++ "\n") console := by
  have named := ht.named
  refine ⟨fun name f hf => named.name_eq hf, Native.sorted t.frame.functions,
    Native.sorted_increasing named, fun f => ?_, fun frame hp args console => ?_⟩
  · rw [Native.mem_sorted, Table.mem_values_iff named.distinct]
  · rw [Native.run_funcs]
    unfold Native.listing
    rw [Native.sorted_of_perm named hp]

/-- The tokens of `fn len(str left, b064 width) {}`. -/
def lenTokens : List Token :=
  [⟨.keyword .fnWord, 0⟩, ⟨.name "len", 3⟩, ⟨.mark .openParen, 6⟩, ⟨.name "str", 7⟩, ⟨.name "left", 11⟩,
   ⟨.mark .comma, 15⟩, ⟨.name "b064", 17⟩, ⟨.name "width", 22⟩, ⟨.mark .closeParen, 27⟩,
   ⟨.mark .openBrace, 29⟩, ⟨.mark .closeBrace, 30⟩, ⟨.stop, 31⟩]

/-- The function that they declare in place of the native one. -/
def lenOfTwo : Function := ⟨"len", [(.text, "left"), (.exactBase 64, "width")], none, .program []⟩

/-- The state after the declaration. -/
def lenState : State where
  frame := (Frame.initial ⟨[], "", ""⟩).declare lenOfTwo
  console := { feed := .script [] }

/-- The statement that they stand for. -/
def lenDeclaration : Expr :=
  .function "len" [⟨"str", "left"⟩, ⟨"b064", "width"⟩] none []

theorem lenState_occurs : Occurs Expr.Parsed lenState := by
  have parsed : lenDeclaration.Parsed :=
    ⟨lenTokens, [lenDeclaration], by with_unfolding_all rfl, by simp⟩
  have declared : runStatement 1 lenDeclaration
      ⟨.initial ⟨[], "", ""⟩, { feed := .script [] }⟩ = some (.ok .unit, lenState) := rfl
  exact .between (.evaluated .start parsed declared)

/-- The declared function is listed and the native one of its name is not, also when the table is
gone through backwards. -/
theorem funcs_lists_each_once_len :
    Occurs Expr.Parsed lenState ∧ lenState.frame.functions.get? "len" = some lenOfTwo ∧
    ∃ fs : List Function, fs.Pairwise (·.name < ·.name) ∧ lenOfTwo ∈ fs ∧
      Native.len.toFunction ∉ fs ∧
      Native.funcs.run [] ⟨∅, ⟨lenState.frame.functions.entries.reverse⟩, 0, ⟨[], "", ""⟩⟩
          lenState.console =
        Native.writing ("Available functions: " ++
          ", ".intercalate (fs.map Function.signature) ++ "\n") lenState.console := by
  have found : lenState.frame.functions.get? "len" = some lenOfTwo := Table.get?_insert_self _ _ _
  obtain ⟨names, fs, increasing, exact, listed⟩ := funcs_lists_each_once lenState_occurs
  refine ⟨lenState_occurs, found, fs, increasing, (exact _).mpr ⟨_, found⟩, fun native => ?_,
    listed _ (List.reverse_perm _) _ _⟩
  obtain ⟨name, hn⟩ := (exact _).mp native
  obtain rfl : "len" = name := names _ _ hn
  rw [found] at hn
  exact absurd (congrArg Function.params (Option.some.inj hn)) (by decide)

end Radix
