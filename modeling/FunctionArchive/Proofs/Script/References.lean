import FunctionArchive.Script.Finding
import FunctionArchive.Script.Scan
import Mathlib.Data.List.Basic
import Mathlib.Data.List.Forall2

/-!
# The references of a script

A syntax tree is made of nodes of several kinds (`Node`), each with its parts in the order in which
they are read (`Node.parts`). A position is the list of the numbers of the parts on the way down
from the root (`Node.at?`); in the order of lists a node comes before everything below it, and what
is below an earlier part comes before what is below a later one. What a traversal finds is what the
nodes are by themselves, in the order of their positions, each node once (`exists_places`).

So which references a script makes is read off its syntax tree: one for each call that loads a
module, wherever it stands, in the order of the positions of the calls (`ofProgram_complete`). A
call comes before those inside its arguments, and none of them is lost.
-/

set_option autoImplicit false

namespace FunctionArchive.Script

/-- A node of a syntax tree. -/
inductive Node
  | expr (e : Expr)
  | callee (c : Callee)
  | argument (a : Argument)
  | key (k : Key)
  | property (p : Property)
  | function (f : Function)
  | classNode (c : Class)
  | member (m : Member)
  | stmt (s : Stmt)
  | branch (c : Case)

namespace Node

/-- The parts of a node, in the order in which they are read. -/
def parts : Node → List Node
  | .expr .missing | .expr (.name _) | .expr (.text _) | .expr .atom | .expr .importMeta => []
  | .expr (.template _ values) => values.map .expr
  | .expr (.group inner) => [.expr inner]
  | .expr (.array items) => items.map .argument
  | .expr (.object properties) => properties.map .property
  | .expr (.function f) => [.function f]
  | .expr (.arrow f) => [.function f]
  | .expr (.classValue c) => [.classNode c]
  | .expr (.member object _) => [.expr object]
  | .expr (.index object inside) => [.expr object, .expr inside]
  | .expr (.call called arguments types) =>
    .callee called :: (arguments.map .argument ++ types.map .expr)
  | .expr (.construct made arguments types) =>
    .expr made :: (arguments.map .argument ++ types.map .expr)
  | .expr (.optional object operands) => .expr object :: operands.map .argument
  | .expr (.tagged tag types content) => .expr tag :: (types.map .expr ++ [.expr content])
  | .expr (.assign target value) => [.expr target, .expr value]
  | .expr (.operation _ operands) => operands.map .expr
  | .expr (.typed _ value types) => .expr value :: types.map .expr
  | .expr (.markup pieces) => pieces.map .expr
  | .callee .dynamicImport => []
  | .callee (.value e) => [.expr e]
  | .argument (.mk _ _ value) => [.expr value]
  | .key .plain => []
  | .key (.computed e) => [.expr e]
  | .property (.shorthand default) => default.map .expr
  | .property (.pair name value) => [.key name, .expr value]
  | .property (.spread value) => [.expr value]
  | .property (.method _ name f) => [.key name, .function f]
  | .function (.mk parameters body types) =>
    parameters.map .expr ++ (body.map .stmt ++ types.map .expr)
  | .classNode (.mk members heritage) => members.map .member ++ heritage.map .expr
  | .member (.method name f) => [.key name, .function f]
  | .member (.field name values) => .key name :: values.map .expr
  | .member (.block body) => body.map .stmt
  | .stmt (.evaluate values) => values.map .expr
  | .stmt (.variables bindings) => bindings.map .expr
  | .stmt (.function f) => [.function f]
  | .stmt (.classDeclaration c) => [.classNode c]
  | .stmt (.block body) => body.map .stmt
  | .stmt (.guarded heads bodies) => heads.map .expr ++ bodies.map .stmt
  | .stmt (.iterate start controls body) => .stmt start :: (controls.map .expr ++ [.stmt body])
  | .stmt (.choose subject cases) => .expr subject :: cases.map .branch
  | .stmt (.attempt body caught handler finalizer) =>
    body.map .stmt ++ (caught.map .expr ++ (handler.map .stmt ++ finalizer.map .stmt))
  | .stmt (.moduleItem content) => content.map .stmt
  | .branch (.mk test body) => test.map .expr ++ body.map .stmt

/-- The node at a position. -/
def at? : Node → List Nat → Option Node
  | n, [] => some n
  | n, i :: rest => n.parts[i]?.bind (·.at? rest)

/-- A part is smaller than the whole. -/
theorem sizeOf_part {n part : Node} (member : part ∈ n.parts) : sizeOf part < sizeOf n := by
  have inner {α : Type} [SizeOf α] {x : α} {xs : List α} (member : x ∈ xs) :
      sizeOf x < sizeOf xs := List.sizeOf_lt_of_mem member
  unfold parts at member
  split at member <;>
    simp only [List.not_mem_nil, List.mem_cons, List.mem_append, List.mem_map,
      or_false] at member <;> grind

/-- What holds of a node when it holds of its parts holds of every node. -/
theorem byParts {holds : Node → Prop} (step : ∀ n, (∀ part ∈ n.parts, holds part) → holds n)
    (n : Node) : holds n :=
  step n fun part _ => byParts step part
termination_by sizeOf n
decreasing_by exact sizeOf_part ‹_›

/-! ## What a node is by itself -/

/-- The findings in a node. -/
def findings (source : Array Char) : Node → List Finding
  | .expr e => e.findings source
  | .callee c => c.findings source
  | .argument (.mk _ _ value) => value.findings source
  | .key k => k.findings source
  | .property p => p.findings source
  | .function f => f.findings source
  | .classNode c => c.findings source
  | .member m => m.findings source
  | .stmt s => s.findings source
  | .branch (.mk test body) => Expr.findingsAll source test ++ Stmt.findingsAll source body

/-- The finding that a node is by itself. -/
def finding? (source : Array Char) : Node → Option Finding
  | .expr .importMeta => some .importMeta
  | .expr (.call called arguments _) =>
    if called.loads then some (.reference (.ofArguments source arguments)) else none
  | _ => none

variable {source : Array Char}

section Lists

theorem findings_exprs (es : List Expr) :
    Expr.findingsAll source es = (es.map Node.expr).flatMap (findings source) := by
  induction es with
  | nil => rfl
  | cons e rest ih => simp [Expr.findingsAll, findings, ih]

theorem findings_arguments (items : List Argument) :
    Argument.findingsAll source items = (items.map Node.argument).flatMap (findings source) := by
  induction items with
  | nil => rfl
  | cons item rest ih =>
      obtain ⟨spread, span, value⟩ := item
      simp [Argument.findingsAll, findings, ih]

theorem findings_properties (properties : List Property) :
    Property.findingsAll source properties =
      (properties.map Node.property).flatMap (findings source) := by
  induction properties with
  | nil => rfl
  | cons p rest ih => simp [Property.findingsAll, findings, ih]

theorem findings_members (members : List Member) :
    Member.findingsAll source members = (members.map Node.member).flatMap (findings source) := by
  induction members with
  | nil => rfl
  | cons m rest ih => simp [Member.findingsAll, findings, ih]

theorem findings_stmts (body : List Stmt) :
    Stmt.findingsAll source body = (body.map Node.stmt).flatMap (findings source) := by
  induction body with
  | nil => rfl
  | cons s rest ih => simp [Stmt.findingsAll, findings, ih]

theorem findings_branches (cases : List Case) :
    Case.findingsAll source cases = (cases.map Node.branch).flatMap (findings source) := by
  induction cases with
  | nil => rfl
  | cons c rest ih =>
      obtain ⟨test, body⟩ := c
      simp [Case.findingsAll, findings, ih]

end Lists

/-- A traversal finds what a node is by itself, and then what it finds in the parts. -/
theorem findings_eq (n : Node) :
    n.findings source = (n.finding? source).toList ++ n.parts.flatMap (findings source) := by
  cases n with
  | expr e =>
      cases e with
      | call called arguments types =>
          have own : called.finding source arguments =
              (finding? source (.expr (.call called arguments types))).toList := by
            cases loads : called.loads <;> simp [Callee.finding, finding?, loads]
          simp [findings, parts, Expr.findings, own, findings_exprs, findings_arguments]
      | _ =>
          simp [findings, finding?, parts, Expr.findings, findings_exprs, findings_arguments,
            findings_properties]
  | callee c => cases c <;> simp [findings, finding?, parts, Callee.findings]
  | argument a => cases a with | mk => simp [findings, finding?, parts]
  | key k => cases k <;> simp [findings, finding?, parts, Key.findings]
  | property p => cases p <;> simp [findings, finding?, parts, Property.findings, findings_exprs]
  | function f =>
      cases f with
      | mk => simp [findings, finding?, parts, Function.findings, findings_exprs, findings_stmts]
  | classNode c =>
      cases c with
      | mk => simp [findings, finding?, parts, Class.findings, findings_exprs, findings_members]
  | member m =>
      cases m <;> simp [findings, finding?, parts, Member.findings, findings_exprs, findings_stmts]
  | stmt s =>
      cases s <;>
        simp [findings, finding?, parts, Stmt.findings, findings_exprs, findings_stmts,
          findings_branches]
  | branch c =>
      cases c with
      | mk => simp [findings, finding?, parts, findings_exprs, findings_stmts]

/-! ## Where the findings are -/

/-- The findings in a node with their positions: in the order of these, each finding that a node is
by itself, and no other. -/
structure Lists (source : Array Char) (n : Node) (places : List (List Nat × Finding)) : Prop where
  increasing : places.Pairwise fun a b => a.1 < b.1
  mem_iff : ∀ p f, (p, f) ∈ places ↔ ∃ m, n.at? p = some m ∧ m.finding? source = some f
  findings_eq : places.map Prod.snd = n.findings source

/-- The same for some of the parts of a node, those from a number on. -/
structure ListsFrom (source : Array Char) (first : Nat) (ns : List Node)
    (places : List (List Nat × Finding)) : Prop where
  increasing : places.Pairwise fun a b => a.1 < b.1
  mem_iff : ∀ p f, (p, f) ∈ places ↔ ∃ i rest n m, p = (first + i) :: rest ∧ ns[i]? = some n ∧
    n.at? rest = some m ∧ m.finding? source = some f
  findings_eq : places.map Prod.snd = ns.flatMap (findings source)

theorem ListsFrom.cons {n : Node} {ns : List Node} {first : Nat}
    {here later : List (List Nat × Finding)} (lists : Lists source n here)
    (further : ListsFrom source (first + 1) ns later) :
    ListsFrom source first (n :: ns)
      (here.map (fun place => (first :: place.1, place.2)) ++ later) where
  increasing := by
    refine List.pairwise_append.mpr ⟨?_, further.increasing, ?_⟩
    · exact List.pairwise_map.mpr (lists.increasing.imp fun less =>
        List.cons_lt_cons_iff.mpr (.inr ⟨rfl, less⟩))
    · rintro _ among ⟨p, f⟩ member
      obtain ⟨place, -, rfl⟩ := List.mem_map.mp among
      obtain ⟨i, rest, n, m, rfl, -⟩ := (further.mem_iff p f).mp member
      exact List.cons_lt_cons_iff.mpr (.inl (by omega))
  mem_iff p f := by
    rw [List.mem_append, further.mem_iff, List.mem_map]
    constructor
    · rintro (⟨⟨q, found⟩, member, same⟩ | ⟨i, rest, n', m, rfl, inside, there, own⟩)
      · cases same
        obtain ⟨m, there, own⟩ := (lists.mem_iff q found).mp member
        exact ⟨0, q, n, m, rfl, rfl, there, own⟩
      · exact ⟨i + 1, rest, n', m, by rw [Nat.add_assoc, Nat.add_comm 1], inside, there, own⟩
    · rintro ⟨i, rest, n', m, rfl, inside, there, own⟩
      cases i with
      | zero =>
          cases inside
          exact .inl ⟨(rest, _), (lists.mem_iff rest _).mpr ⟨m, there, own⟩, rfl⟩
      | succ i =>
          exact .inr ⟨i, rest, n', m, by rw [Nat.add_assoc, Nat.add_comm 1], inside, there, own⟩
  findings_eq := by
    rw [List.map_append, further.findings_eq, List.map_map, List.flatMap_cons, ← lists.findings_eq]
    rfl

theorem exists_listsFrom {ns : List Node} (each : ∀ n ∈ ns, ∃ places, Lists source n places)
    (first : Nat) : ∃ places, ListsFrom source first ns places := by
  induction ns generalizing first with
  | nil => exact ⟨[], .nil, by simp, rfl⟩
  | cons n rest ih =>
      obtain ⟨⟨here, lists⟩, others⟩ := List.forall_mem_cons.mp each
      obtain ⟨later, further⟩ := ih others (first + 1)
      exact ⟨_, .cons lists further⟩

/-- What a traversal finds can be told with its positions. -/
theorem exists_places (source : Array Char) (n : Node) : ∃ places, Lists source n places := by
  induction n using byParts with | step n each =>
  obtain ⟨below, further⟩ := exists_listsFrom each 0
  refine ⟨(n.finding? source).toList.map (([], ·)) ++ below, ?_, fun p f => ?_, ?_⟩
  · refine List.pairwise_append.mpr ⟨?_, further.increasing, ?_⟩
    · cases n.finding? source <;> simp
    · rintro _ among ⟨p, f⟩ member
      obtain ⟨own, -, rfl⟩ := List.mem_map.mp among
      obtain ⟨i, rest, n', m, rfl, -⟩ := (further.mem_iff p f).mp member
      exact List.nil_lt_cons _ _
  · rw [List.mem_append, further.mem_iff]
    cases p with
    | nil => simp [at?]
    | cons i rest =>
        constructor
        · rintro (root | ⟨j, below, part, m, same, isPart, there, own⟩)
          · obtain ⟨own, -, same⟩ := List.mem_map.mp root
            cases same
          · rw [Nat.zero_add] at same
            cases same
            exact ⟨m, Option.bind_eq_some_iff.mpr ⟨part, isPart, there⟩, own⟩
        · rintro ⟨m, there, own⟩
          obtain ⟨part, isPart, there⟩ := Option.bind_eq_some_iff.mp there
          exact .inr ⟨i, rest, part, m, by rw [Nat.zero_add], isPart, there, own⟩
  · rw [findings_eq, List.map_append, further.findings_eq, List.map_map]
    cases n.finding? source <;> rfl

end Node

/-! ## Calls that load modules -/

variable {source : Array Char} {program : List Stmt} {callee : Callee} {arguments : List Argument}

/-- A callee that loads a module: the key word `import`, the name `require`, or its member
`resolve`. -/
def Callee.IsLoader (callee : Callee) : Prop :=
  callee = .dynamicImport ∨ callee = .value (.name "require") ∨
    callee = .value (.member (.name "require") "resolve")

theorem Callee.loads_iff : callee.loads = true ↔ callee.IsLoader := by
  unfold loads IsLoader
  split <;> simp_all

/-- The first argument is a literal with this value: a string, or a template without substitutions,
not spread. -/
def Argument.IsLiteral (arguments : List Argument) (value : String) : Prop :=
  ∃ span rest, arguments = .mk false span (.text value) :: rest ∨
    arguments = .mk false span (.template [some value] []) :: rest

/-- The source of the first argument. -/
def Argument.sourceOfFirst (source : Array Char) : List Argument → List Char
  | [] => []
  | .mk _ span _ :: _ => (source.extract span.start span.stop).toList

/-- A reference tells the value of the first argument of a call if that is a literal, and otherwise
not more than sixty characters of its source. -/
def Reference.Tells (source : Array Char) (arguments : List Argument) : Reference → Prop
  | .static value => Argument.IsLiteral arguments value
  | .dynamic snippet => (∀ value, ¬Argument.IsLiteral arguments value) ∧ snippet.length ≤ 60 ∧
      snippet.toList <:+: Argument.sourceOfFirst source arguments

theorem Span.snippet_length (source : Array Char) (span : Span) :
    (span.snippet source).length ≤ 60 := by
  rw [snippet, String.length_ofList, List.length_take]
  exact Nat.min_le_left _ _

theorem trimChars_isInfix (chars : List Char) : Text.trimChars chars <:+: chars := by
  have front := List.dropWhile_suffix (l := chars) Text.isBlank
  have back := List.dropWhile_suffix (l := (chars.dropWhile Text.isBlank).reverse) Text.isBlank
  have kept : Text.trimChars chars <+: chars.dropWhile Text.isBlank := by
    simpa [Text.trimChars] using List.reverse_prefix.mpr back
  exact kept.isInfix.trans front.isInfix

theorem Span.snippet_infix (source : Array Char) (span : Span) :
    (span.snippet source).toList <:+: (source.extract span.start span.stop).toList := by
  rw [snippet, String.toList_ofList]
  exact (List.take_prefix _ _).isInfix.trans (trimChars_isInfix _)

theorem Reference.tells (source : Array Char) (arguments : List Argument) :
    (Reference.ofArguments source arguments).Tells source arguments := by
  unfold ofArguments
  split
  · exact ⟨by simp [Argument.IsLiteral], by decide, List.nil_infix⟩
  · exact ⟨_, _, .inl rfl⟩
  · exact ⟨_, _, .inr rfl⟩
  · next spread span value rest noText noTemplate =>
    refine ⟨?_, Span.snippet_length source span, Span.snippet_infix source span⟩
    rintro value' ⟨span', rest', same | same⟩ <;> cases same
    · exact noText _ rfl rfl
    · exact noTemplate _ rfl rfl

/-! ## Calls and `import.meta` among the nodes -/

namespace Node

variable {n : Node}

theorem finding?_eq_reference {r : Reference} : n.finding? source = some (.reference r) ↔
    ∃ callee arguments types, n = .expr (.call callee arguments types) ∧ callee.IsLoader ∧
      Reference.ofArguments source arguments = r := by
  unfold finding?
  split
  · simp
  · next called arguments types => simp [← Callee.loads_iff]
  · next notMeta notCall =>
    refine ⟨nofun, ?_⟩
    rintro ⟨callee, arguments, types, rfl, -⟩
    exact absurd rfl (notCall callee arguments types)

theorem finding?_eq_importMeta :
    n.finding? source = some .importMeta ↔ n = .expr .importMeta := by
  unfold finding?
  split
  · simp
  · simp
  · next notMeta notCall => exact ⟨nofun, fun same => absurd same notMeta⟩

/-- A reference among the findings, with its position. -/
def reference? (place : List Nat × Finding) : Option (List Nat × Reference) :=
  place.2.reference?.map (place.1, ·)

theorem reference?_eq_some {place : List Nat × Finding} {p : List Nat} {r : Reference} :
    reference? place = some (p, r) ↔ place = (p, .reference r) := by
  obtain ⟨q, found⟩ := place
  cases found <;> simp [reference?, Finding.reference?]

theorem reference?_fst {place : List Nat × Finding} {told : List Nat × Reference}
    (same : reference? place = some told) : told.1 = place.1 :=
  (congrArg Prod.fst (reference?_eq_some.mp same)).symm

theorem Lists.mem_references {places : List (List Nat × Finding)} (lists : Lists source n places)
    (p : List Nat) (r : Reference) : (p, r) ∈ places.filterMap reference? ↔
      ∃ callee arguments types, n.at? p = some (.expr (.call callee arguments types)) ∧
        callee.IsLoader ∧ Reference.ofArguments source arguments = r := by
  simp only [List.mem_filterMap, reference?_eq_some, exists_eq_right, lists.mem_iff,
    finding?_eq_reference]
  grind

/-- The root of the syntax tree of a script. -/
def ofProgram (program : List Stmt) : Node := .stmt (.block program)

end Node

/-- **The references of a script.** There is exactly one reference for each call of the tree that
loads a module, in the order of the positions of the calls, and it tells the value of the first
argument exactly when that is a literal. The script has the syntax of modules exactly when one of
its statements is an import or an export or `import.meta` stands anywhere in it. -/
theorem ofProgram_complete (source : Array Char) (program : List Stmt) :
    (∃ positions : List (List Nat), positions.Pairwise (· < ·) ∧
      (∀ p, p ∈ positions ↔ ∃ callee arguments types,
        (Node.ofProgram program).at? p = some (.expr (.call callee arguments types)) ∧
          callee.IsLoader) ∧
      List.Forall₂ (fun p reference => ∃ callee arguments types,
          (Node.ofProgram program).at? p = some (.expr (.call callee arguments types)) ∧
            reference.Tells source arguments)
        positions (Scan.ofProgram source program).references) ∧
    ((Scan.ofProgram source program).moduleSyntax = true ↔
      (∃ content, .moduleItem content ∈ program) ∨
        ∃ p, (Node.ofProgram program).at? p = some (.expr .importMeta)) ∧
    ∀ text path, text.toList.toArray = source →
      parse (Dialect.ofPath path) source = .ok program →
        scan text path = .ok (Scan.ofProgram source program) := by
  obtain ⟨places, lists⟩ := Node.exists_places source (Node.ofProgram program)
  have all : Stmt.findingsAll source program = places.map Prod.snd := lists.findings_eq.symm
  refine ⟨?_, ?_, ?_⟩
  · have told_eq : (Scan.ofProgram source program).references =
        (places.filterMap Node.reference?).map Prod.snd := by
      rw [Scan.ofProgram, all, List.filterMap_map, List.map_filterMap]
      simp [Function.comp_def, Node.reference?]
    refine ⟨(places.filterMap Node.reference?).map Prod.fst, ?_, fun p => ?_, ?_⟩
    · exact List.pairwise_map.mpr (lists.increasing.filterMap _ fun a b less p fromA q fromB =>
        Node.reference?_fst fromA ▸ Node.reference?_fst fromB ▸ less)
    · constructor
      · intro member
        obtain ⟨⟨_, r⟩, told, rfl⟩ := List.mem_map.mp member
        obtain ⟨callee, arguments, types, there, loads, -⟩ := (lists.mem_references _ r).mp told
        exact ⟨callee, arguments, types, there, loads⟩
      · rintro ⟨callee, arguments, types, there, loads⟩
        exact List.mem_map.mpr ⟨(p, .ofArguments source arguments),
          (lists.mem_references _ _).mpr ⟨callee, arguments, types, there, loads, rfl⟩, rfl⟩
    · rw [told_eq, List.forall₂_map_left_iff, List.forall₂_map_right_iff, List.forall₂_same]
      rintro ⟨p, r⟩ told
      obtain ⟨callee, arguments, types, there, -, rfl⟩ := (lists.mem_references p r).mp told
      exact ⟨callee, arguments, types, there, Reference.tells source arguments⟩
  · have item_iff : program.any Stmt.isModuleItem = true ↔
        ∃ content, .moduleItem content ∈ program := by
      rw [List.any_eq_true]
      constructor
      · rintro ⟨s, member, isItem⟩
        cases s <;> first | exact ⟨_, member⟩ | cases isItem
      · rintro ⟨content, member⟩
        exact ⟨_, member, rfl⟩
    have meta_iff : (places.map Prod.snd).contains .importMeta = true ↔
        ∃ p, (Node.ofProgram program).at? p = some (.expr .importMeta) := by
      simp only [List.contains_iff_mem, List.mem_map, Prod.exists, exists_eq_right, lists.mem_iff,
        Node.finding?_eq_importMeta]
    rw [Scan.ofProgram, all, Bool.or_eq_true, item_iff, meta_iff]
  · rintro text path rfl parsed
    delta scan
    dsimp only
    rw [parsed]

/-- A text that is scanned was parsed. -/
theorem exists_of_scan {text : String} {path : Path} {scanned : Scan}
    (scans : scan text path = .ok scanned) : ∃ program,
      parse (Dialect.ofPath path) text.toList.toArray = .ok program ∧
        scanned = Scan.ofProgram text.toList.toArray program := by
  unfold scan at scans
  dsimp only at scans
  split at scans
  · rename_i program parsed
    exact ⟨program, parsed, (Except.ok.inj scans).symm⟩
  · cases scans

/-- A script that loads a module and at once calls what it gets with another one. -/
theorem ofProgram_complete_loadedAndCalled :
    ∃ program, parse (Dialect.ofPath (.ofString "a.js"))
        "require('./b')(import(name))".toList.toArray = .ok program ∧
      Scan.ofProgram "require('./b')(import(name))".toList.toArray program =
        ⟨[.static "./b", .dynamic "name"], false⟩ ∧
      scan "require('./b')(import(name))" (.ofString "a.js") =
        .ok (Scan.ofProgram "require('./b')(import(name))".toList.toArray program) := by
  have scans : scan "require('./b')(import(name))" (.ofString "a.js") =
      .ok ⟨[.static "./b", .dynamic "name"], false⟩ := by decide +kernel
  obtain ⟨program, parsed, told⟩ := exists_of_scan scans
  obtain ⟨-, -, whole⟩ := ofProgram_complete _ program
  exact ⟨program, parsed, told.symm, whole _ _ rfl parsed⟩
end FunctionArchive.Script
