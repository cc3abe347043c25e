import Lisp.Proofs.Evaluation.Frames
import Lisp.Proofs.Evaluation.Log
import Lisp.Proofs.Heap.Listing
import Lisp.Proofs.Repl.Dialogue

/-! # The listing of the environment

The dialogue lists the visible bindings in two sections, which it tells apart by the values: a name
bound to its own symbol counts as one of the language. The names of the language never lose their
bindings, so each stands in the first section for as long as it has the binding it began with, and
in the second afterwards. A name that the user binds to its own symbol stands in the first section
as well; the first holds names of the language only as long as there is none. -/

namespace Lisp

namespace ReplEntry

/-! ## The layout -/

theorem block_append (lines lines' : List String) :
    block (lines ++ lines') = block lines ++ block lines' := by
  simp [block]

theorem block_cons (line : String) (lines : List String) :
    block (line :: lines) = line ++ "\n" ++ block lines := by
  simp [block]

/-- Names in rows of four. -/
def rows : List String → List (List String)
  | a :: b :: c :: d :: names => [a, b, c, d] :: rows names
  | [] => []
  | names => [names]

def tableLines (names : List String) : List String :=
  (rows names).map fun row => String.join (row.map cell)

/-- Only the place in its row matters to a name. -/
theorem table_congr {col col' : Nat} (h : col % 4 = col' % 4) (names : List String) :
    table col names = table col' names := by
  induction names generalizing col col' with
  | nil => rw [table, table, h]
  | cons name names ih =>
      have hnext : (col + 1) % 4 = (col' + 1) % 4 := by omega
      rw [table, table, hnext, ih hnext]

theorem table_eq_block (names : List String) : table 0 names = block (tableLines names) := by
  fun_induction rows names with
  | case1 a b c d names ih =>
      have hrow : table 4 names = table 0 names := table_congr (by decide) names
      rw [tableLines, rows, List.map_cons, block_cons, ← tableLines, ← ih]
      simp [table, hrow, String.append_assoc]
  | case2 => rfl
  | case3 names hfour hnil =>
      match names with
      | [] => exact absurd rfl hnil
      | [a] => simp [table, tableLines, rows, block]
      | [a, b] => simp [table, tableLines, rows, block, String.append_assoc]
      | [a, b, c] => simp [table, tableLines, rows, block, String.append_assoc]
      | a :: b :: c :: d :: names => exact absurd rfl (hfour a b c d names)

/-- The section of built-in names; for none there is no section. -/
def builtInLines (bs : Bindings) : List String :=
  if bs.isEmpty then [] else
    ("Built-in symbols (" ++ Text.Decimal.ofNat bs.length ++ "):") ::
      tableLines (bs.map (·.1.name)) ++ [""]

def userDefinedLines (bs : Bindings) : List String :=
  if bs.isEmpty then [] else
    ("User-defined values (" ++ Text.Decimal.ofNat bs.length ++ "):") ::
      bs.map fun b => "  " ++ b.1.name ++ " = " ++ b.2.print

def listing (builtIn userDefined : Bindings) : List String :=
  ["Environment bindings (" ++ Text.Decimal.ofNat (builtIn.length + userDefined.length) ++
    " total):", ""] ++ builtInLines builtIn ++ userDefinedLines userDefined

theorem selfBoundText_eq_block (bs : Bindings) : selfBoundText bs = block (builtInLines bs) := by
  rw [selfBoundText, builtInLines, table_eq_block]
  split
  · rfl
  · rw [block_append, block_cons]
    simp [block, String.append_assoc]

theorem userDefinedText_eq_block (bs : Bindings) :
    userDefinedText bs = block (userDefinedLines bs) := by
  rw [userDefinedText, userDefinedLines]
  split
  · rfl
  · rw [block_cons]
    simp [String.append_assoc]

theorem environmentText_eq_block {bs : Bindings} (h : bs ≠ []) :
    environmentText bs =
      block (listing (bs.filter isSelfBound) (bs.filter fun b => !isSelfBound b)) := by
  have hempty : bs.isEmpty = false := by simpa using h
  have htotal : bs.length =
      (bs.filter isSelfBound).length + (bs.filter fun b => !isSelfBound b).length := by
    simpa using List.length_eq_length_filter_add isSelfBound
  rw [environmentText, hempty, htotal, listing, block_append, block_append,
    ← selfBoundText_eq_block, ← userDefinedText_eq_block]
  simp [block, String.append_assoc]

theorem isSelfBound_iff {x : Symbol} {v : Value} : isSelfBound (x, v) = true ↔ v = .symbol x := by
  cases v <;> simp [isSelfBound, Value.symbol?]

end ReplEntry

/-! ## Names are never unbound -/

theorem Heap.lookup?_of_local? {h : Heap} {f : FrameId} {x : Symbol} {v : Value}
    (hv : h.local? f x = some v) : h.lookup? f x = some v := by
  rw [lookup?, chain]
  split
  · rename_i hnone
    simp [local?, hnone] at hv
  · split
    · simp [hv]
    · split <;> simp [hv]

theorem Interpreter.evaluate_bindsOnly (i : Interpreter) (d : Datum) :
    Run.Respects (Machine.BindsOnly global fun _ => True) (i.evaluate d) := by
  refine (Run.fresh_bindsOnly _).bind fun e => ?_
  rw [evaluate_eq_eval]
  exact (eval_bindsLocally _ _).respects e global

namespace Repl

variable {r r' : Repl} {line : String} {lines : List String} {entries : List ReplEntry}

/-- Whatever the dialogue evaluates, it binds names in the global frame. -/
theorem evaluateEach_bindsOnly (ds : List Datum) (m : Machine) :
    Machine.BindsOnly Interpreter.global (fun _ => True) m (evaluateEach ds m).2 := by
  induction ds generalizing m with
  | nil => exact refl_of _ m
  | cons d ds ih =>
      have hd := interpreter.evaluate_bindsOnly d m
      cases hrun : (interpreter.evaluate d).run m with
      | ok v m₁ =>
          rw [Run.after_of_ok hrun] at hd
          rw [evaluateEach_of_ok hrun]
          -- emptying the sink leaves the heap as it is
          have hsink : Machine.BindsOnly Interpreter.global (fun _ => True) m
              (m₁.withSink (.empty none)) := hd
          exact trans_of _ hsink (ih _)
      | error s m₁ =>
          rw [Run.after_of_error hrun] at hd
          cases s with
          | error e =>
              rw [evaluateEach_of_error hrun]
              exact hd
          | outOfFuel =>
              rw [evaluateEach_of_outOfFuel hrun]
              exact hd

theorem collect_bindsOnly (r : Repl) (line : String) :
    Machine.BindsOnly Interpreter.global (fun _ => True) r.machine (r.collect line).2.machine := by
  rw [collect]
  cases readBuffer interpreter.limits.parse (r.buffer ++ line ++ "\n") with
  | complete data => exact evaluateEach_bindsOnly data r.machine
  | needsMore => exact refl_of _ _
  | invalid e => exact refl_of _ _

theorem line_bindsOnly (h : r.line line = (entries, some r')) :
    Machine.BindsOnly Interpreter.global (fun _ => True) r.machine r'.machine := by
  have hcollect (hr : (r.collect line).map id some = (entries, some r')) :
      Machine.BindsOnly Interpreter.global (fun _ => True) r.machine r'.machine := by
    simp only [Prod.map, Prod.mk.injEq, Option.some.injEq] at hr
    rw [← hr.2]
    exact r.collect_bindsOnly line
  unfold Repl.line at h
  split at h
  · split at h
    · cases h
      exact refl_of _ _
    · cases h
      exact refl_of _ _
    · cases h
      exact refl_of _ _
    · cases h
    · cases h
    · exact hcollect h
  · exact hcollect h

theorem feed_bindsOnly (h : r.feed lines = (entries, some r')) :
    Machine.BindsOnly Interpreter.global (fun _ => True) r.machine r'.machine := by
  induction lines generalizing r entries with
  | nil =>
      cases h
      exact refl_of _ _
  | cons line lines ih =>
      rw [feed] at h
      split at h
      · rename_i es r₁ hline
        obtain ⟨-, hnext⟩ := Prod.mk.inj h
        exact trans_of _ (line_bindsOnly hline) (ih (Prod.ext rfl hnext))
      · cases h

/-- The names of the language are bound at every point of a dialogue. -/
theorem lookup_predefined (h : start.feed lines = (entries, some r)) {x : Symbol}
    (hx : x ∈ Symbol.predefined) :
    ∃ v, r.machine.heap.lookup Interpreter.global x = .ok v := by
  have hstart : (start.machine.heap.local? Interpreter.global x).isSome := by
    have hlocal : start.machine.heap.local? Interpreter.global x = Frame.global.lookup? x :=
      Heap.local?_push_size (h := .empty) .global x
    rw [hlocal, Frame.lookup?_global, if_pos hx]
    rfl
  obtain ⟨v, hv⟩ := Option.isSome_iff_exists.mp ((feed_bindsOnly h).bound x hstart)
  exact ⟨v, Heap.lookup_eq_ok_iff.mpr (Heap.lookup?_of_local? hv)⟩

/-! ## The two sections -/

/-- The sections list the bindings that are visible from the global frame, each once and in the
order of names: those of names to their own symbols, and all others. -/
structure Sections (h : Heap) (builtIn userDefined : Bindings) : Prop where
  ordered_builtIn : builtIn.Ordered
  ordered_userDefined : userDefined.Ordered
  once : ((builtIn ++ userDefined).map Prod.fst).Nodup
  mem_builtIn_iff : ∀ x v, (x, v) ∈ builtIn ↔
    h.lookup Interpreter.global x = .ok v ∧ v = .symbol x
  mem_userDefined_iff : ∀ x v, (x, v) ∈ userDefined ↔
    h.lookup Interpreter.global x = .ok v ∧ v ≠ .symbol x

theorem sections_bindings (h : Heap) :
    Sections h ((h.bindings Interpreter.global).filter ReplEntry.isSelfBound)
      ((h.bindings Interpreter.global).filter fun b => !ReplEntry.isSelfBound b) := by
  have hordered := h.ordered_bindings Interpreter.global
  have hnames : ((h.bindings Interpreter.global).map Prod.fst).Nodup :=
    hordered.map Prod.fst fun a b hlt heq => hlt.ne (congrArg Symbol.name heq)
  refine ⟨hordered.filter _, hordered.filter _, ?_, ?_, ?_⟩
  · exact ((List.filter_append_perm ReplEntry.isSelfBound _).map Prod.fst).nodup_iff.mpr hnames
  · intro x v
    rw [List.mem_filter, Heap.mem_bindings_iff, ReplEntry.isSelfBound_iff]
  · intro x v
    rw [List.mem_filter, Heap.mem_bindings_iff, Bool.not_eq_true', ← Bool.not_eq_true,
      ReplEntry.isSelfBound_iff]

namespace Sections

variable {h : Heap} {builtIn userDefined : Bindings} {x : Symbol}

theorem mem_names_iff (hs : Sections h builtIn userDefined) :
    x ∈ builtIn.map Prod.fst ↔ h.lookup Interpreter.global x = .ok (.symbol x) := by
  constructor
  · intro hx
    obtain ⟨⟨y, v⟩, hmem, rfl⟩ := List.mem_map.mp hx
    obtain ⟨hv, rfl⟩ := (hs.mem_builtIn_iff y v).mp hmem
    exact hv
  · intro hx
    exact List.mem_map.mpr ⟨(x, .symbol x), (hs.mem_builtIn_iff x _).mpr ⟨hx, rfl⟩, rfl⟩

/-- A name that is bound is listed with its value. -/
theorem lists (hs : Sections h builtIn userDefined) {v : Value}
    (hv : h.lookup Interpreter.global x = .ok v) :
    (x, .symbol x) ∈ builtIn ∨ ∃ v, v ≠ .symbol x ∧ (x, v) ∈ userDefined := by
  by_cases hself : v = .symbol x
  · subst v
    exact .inl ((hs.mem_builtIn_iff x _).mpr ⟨hv, rfl⟩)
  · exact .inr ⟨v, hself, (hs.mem_userDefined_iff x v).mpr ⟨hv, hself⟩⟩

end Sections

theorem line_of_env (hbuffer : r.buffer = "") (hline : Text.trim line = ":env") :
    r.line line = ([.environment (r.machine.heap.bindings Interpreter.global)], some r) := by
  simp [Repl.line, hbuffer, hline]

/-- What the dialogue answers when it is asked for the environment, at whatever point. Every visible
binding is listed, in one of the two sections, and the counts are those of the sections. A name of
the language is in the first section as long as it is bound to its own symbol, and in the second
otherwise. If no other name is bound to its own symbol, the first section holds just these, and
every name that the user introduced is in the second. -/
theorem environment_command_lists_bindings (h : start.feed lines = (entries, some r))
    (hbuffer : r.buffer = "") (hline : Text.trim line = ":env") :
    let value (x : Symbol) := r.machine.heap.lookup Interpreter.global x
    ∃ entry builtIn userDefined, r.line line = ([entry], some r) ∧
      entry.bytes = (ReplEntry.block (ReplEntry.listing builtIn userDefined)).toUTF8 ∧
      Sections r.machine.heap builtIn userDefined ∧
      (∀ x ∈ Symbol.predefined,
        (x, .symbol x) ∈ builtIn ∨ ∃ v, v ≠ .symbol x ∧ (x, v) ∈ userDefined) ∧
      ((∀ x, value x = .ok (.symbol x) → x ∈ Symbol.predefined) →
        (∀ x, x ∈ builtIn.map Prod.fst ↔ x ∈ Symbol.predefined ∧ value x = .ok (.symbol x)) ∧
        ∀ x v, x ∉ Symbol.predefined → value x = .ok v → (x, v) ∈ userDefined) := by
  intro value
  have hsections := sections_bindings r.machine.heap
  have hne : r.machine.heap.bindings Interpreter.global ≠ [] := by
    obtain ⟨v, hv⟩ := lookup_predefined h (x := .nil) List.mem_cons_self
    exact List.ne_nil_of_mem (Heap.mem_bindings_iff.mpr hv)
  refine ⟨_, _, _, line_of_env hbuffer hline,
    congrArg String.toUTF8 (ReplEntry.environmentText_eq_block hne), hsections, ?_, ?_⟩
  · intro x hx
    obtain ⟨v, hv⟩ := lookup_predefined h hx
    exact hsections.lists hv
  · intro hself
    constructor
    · intro x
      rw [hsections.mem_names_iff]
      exact ⟨fun hx => ⟨hself x hx, hx⟩, fun hx => hx.2⟩
    · intro x v hx hv
      refine (hsections.mem_userDefined_iff x v).mpr ⟨hv, ?_⟩
      rintro rfl
      exact hx (hself x hv)

/-- A name of the language bound anew, and one introduced. -/
theorem environment_command_lists_bindings_rebound :
    let car : Symbol := Builtin.symbol (.primitive .car)
    let foo : Symbol := .ofName "FOO"
    let bar : Symbol := .ofName "BAR"
    ∃ entries r, start.feed ["(SET CAR 1) (SET FOO 'BAR)"] = (entries, some r) ∧ r.buffer = "" ∧
      ∃ entry builtIn userDefined, r.line ":env" = ([entry], some r) ∧
        entry.bytes = (ReplEntry.block (ReplEntry.listing builtIn userDefined)).toUTF8 ∧
        car ∉ builtIn.map Prod.fst ∧ .nil ∈ builtIn.map Prod.fst ∧
        (car, .number 1) ∈ userDefined ∧ (foo, .symbol bar) ∈ userDefined := by
  intro car foo bar
  let lines := ["(SET CAR 1) (SET FOO 'BAR)"]
  let r := (start.feed lines).2.get (by decide +kernel)
  have hfeed : start.feed lines = ((start.feed lines).1, some r) :=
    Prod.ext rfl (Option.some_get _).symm
  have hbuffer : r.buffer = "" := by decide +kernel
  have hself : ∀ x, r.machine.heap.lookup Interpreter.global x = .ok (.symbol x) →
      x ∈ Symbol.predefined := by
    have hall : ∀ b ∈ r.machine.heap.bindings Interpreter.global, b.2 = .symbol b.1 →
        b.1 ∈ Symbol.predefined := by decide +kernel
    exact fun x hx => hall (x, .symbol x) (Heap.mem_bindings_iff.mpr hx) rfl
  have hcar : r.machine.heap.lookup Interpreter.global car = .ok (.number 1) := by decide +kernel
  have hnil : r.machine.heap.lookup Interpreter.global .nil = .ok (.symbol .nil) := by
    decide +kernel
  have hfoo : r.machine.heap.lookup Interpreter.global foo = .ok (.symbol bar) := by decide +kernel
  have hcommand : Text.trim ":env" = ":env" := by decide +kernel
  obtain ⟨entry, builtIn, userDefined, hline, hbytes, hsections, -, hexact⟩ :=
    environment_command_lists_bindings hfeed hbuffer hcommand
  obtain ⟨hnames, huser⟩ := hexact hself
  refine ⟨_, r, hfeed, hbuffer, entry, builtIn, userDefined, hline, hbytes, ?_, ?_, ?_, ?_⟩
  · intro hmem
    cases hcar.symm.trans ((hnames car).mp hmem).2
  · exact (hnames .nil).mpr ⟨List.mem_cons_self, hnil⟩
  · exact (hsections.mem_userDefined_iff car _).mpr ⟨hcar, nofun⟩
  · exact huser foo _ (by decide +kernel) hfoo

/-- A name that the user binds to its own symbol is listed as one of the language. -/
theorem environment_lists_user_name_as_built_in :
    let foo : Symbol := .ofName "FOO"
    foo ∉ Symbol.predefined ∧
    ∃ entries r, start.feed ["(SET FOO 'FOO)"] = (entries, some r) ∧
      r.machine.heap.lookup Interpreter.global foo = .ok (.symbol foo) ∧
      ∃ entry, r.line ":env" = ([entry], some r) ∧ entry.bytes = (ReplEntry.block
        ["Environment bindings (21 total):",
         "",
         "Built-in symbols (21):",
         "  *                +                -                /              ",
         "  <                >                ATOM?            CAR            ",
         "  CDR              COND             CONS             DEFUN          ",
         "  EQ?              EQUAL?           FOO              LIST           ",
         "  NIL              PRINT            QUOTE            SET            ",
         "  TRUE           ",
         ""]).toUTF8 := by
  intro foo
  let lines := ["(SET FOO 'FOO)"]
  let r := (start.feed lines).2.get (by decide +kernel)
  have hfeed : start.feed lines = ((start.feed lines).1, some r) :=
    Prod.ext rfl (Option.some_get _).symm
  have hfoo : r.machine.heap.lookup Interpreter.global foo = .ok (.symbol foo) := by decide +kernel
  have hne : r.machine.heap.bindings Interpreter.global ≠ [] :=
    List.ne_nil_of_mem (Heap.mem_bindings_iff.mpr hfoo)
  have hcommand : Text.trim ":env" = ":env" := by decide +kernel
  have hline := line_of_env (r := r) (by decide +kernel) hcommand
  refine ⟨by decide +kernel, _, r, hfeed, hfoo, _, hline, ?_⟩
  rw [ReplEntry.bytes, ReplEntry.environmentText_eq_block hne]
  congr 2
  decide +kernel

end Repl

end Lisp
