import Peering.CommandLine
import Peering.Proofs.Layout

/-!
When the program writes. It reads and checks everything first: what was resolved can be compiled, so
nothing fails between the checks and the one write at the end. A run that fails leaves no trace, and
checking a configuration tells whether compiling it would succeed.
-/
namespace Peering.CommandLine

namespace Files

def document {α : Type} (files : Files) (c : Document.Codec α) (path key : String) :
    Except Failure α :=
  match files.read path with
  | .error .isDirectory => .error (.reading path key .isDirectory)
  | .error fault => .error (.opening path fault)
  | .ok bytes => (readDocument c key bytes).mapError (.document path)

def registry (files : Files) : Option String → Except Failure Registry
  | some path => files.document Registry.codec path "lookup"
  | none => .ok .empty

def text (files : Files) (config : String) (lookup : Option String) : Except Failure String := do
  let settings ← files.document Settings.routerRecord.codec config "config"
  let registry ← files.registry lookup
  (Router.resolve settings registry >>= Router.compile).mapError .refused

/-- Where output can go: to the standard output, or to a file that can be written. -/
def Writable (files : Files) : Option String → Prop
  | none => True
  | some path => ∃ bytes after, files.write path bytes = .ok after

/-- The registry is that of the file named, or else the one that knows nothing. -/
def HasRegistry (files : Files) (registry : Registry) : Option String → Prop
  | none => registry = .empty
  | some path => ∃ bytes, files.read path = .ok bytes ∧ readRegistry bytes = .ok registry

/-- The documents of a configuration can be read, are accepted and compile to the text. -/
def Compiles (files : Files) (config : String) (lookup : Option String) (text : String) : Prop :=
  ∃ bytes settings registry router,
    files.read config = .ok bytes ∧ readSettings bytes = .ok settings ∧
    files.HasRegistry registry lookup ∧
    Router.resolve settings registry = .ok router ∧ router.compile = .ok text

section Directory
variable {files after : Files} {path : String} {bytes : List Document.Byte}

theorem document_eq_ok_iff {α : Type} {c : Document.Codec α} {key : String} {a : α} :
    files.document c path key = .ok a ↔
      ∃ bytes, files.read path = .ok bytes ∧ readDocument c key bytes = .ok a := by
  unfold document
  cases hread : files.read path with
  | error fault => cases fault <;> simp
  | ok bytes => simp [mapError_eq_ok]

theorem registry_eq_ok_iff {lookup : Option String} {reg : Registry} :
    files.registry lookup = .ok reg ↔ files.HasRegistry reg lookup := by
  cases lookup with
  | none => exact ⟨fun h => (Except.ok.inj h).symm, congrArg Except.ok ∘ Eq.symm⟩
  | some path => exact document_eq_ok_iff

theorem text_eq_ok_iff {config text : String} {lookup : Option String} :
    files.text config lookup = .ok text ↔ files.Compiles config lookup text := by
  constructor
  · intro h
    obtain ⟨settings, hsettings, h⟩ := ok_of_bind h
    obtain ⟨reg, hreg, h⟩ := ok_of_bind h
    obtain ⟨router, hrouter, htext⟩ := ok_of_bind (mapError_eq_ok.mp h)
    obtain ⟨bytes, hbytes, hsettings⟩ := document_eq_ok_iff.mp hsettings
    exact ⟨bytes, settings, reg, router, hbytes, hsettings, registry_eq_ok_iff.mp hreg, hrouter,
      htext⟩
  · rintro ⟨bytes, settings, reg, router, hbytes, hsettings, hreg, hrouter, htext⟩
    rw [Files.text, document_eq_ok_iff.mpr ⟨bytes, hbytes, hsettings⟩]
    show files.registry lookup >>= _ = _
    rw [registry_eq_ok_iff.mpr hreg]
    show (Router.resolve settings reg >>= Router.compile).mapError _ = _
    rw [hrouter]
    exact mapError_eq_ok.mpr htext

theorem write_eq_ok_iff : files.write path bytes = .ok after ↔
    (isAbsolute path = false ∧ files.isDirectory (components path) = false ∧
      path.endsWith "/" = false ∧ files.isDirectory (components path).dropLast = true) ∧
    after = files.put path bytes := by
  rw [write, eq_comm]
  cases isAbsolute path <;> cases files.isDirectory (components path) <;>
    cases path.endsWith "/" <;> cases files.isDirectory (components path).dropLast <;> simp

theorem contents?_put (path : String) (bytes : List Document.Byte) (cs : List String) :
    (files.put path bytes).contents? cs =
      if components path = cs then some bytes else files.contents? cs := by
  induction files with
  | nil => by_cases h : components path = cs <;> simp [put, contents?, h]
  | cons file files ih =>
    obtain ⟨name, old⟩ := file
    rw [put]
    split
    · rename_i same
      by_cases h : components path = cs <;> simp [contents?, same, h]
    · rename_i other
      by_cases h : components name = cs
      · have away : components path ≠ cs := fun heq => other (h.trans heq.symm)
        simp [contents?, h, away]
      · have skip (fs : Files) : contents? ((name, old) :: fs) cs = contents? fs cs := by
          simp [contents?, h]
        rw [skip, skip, ih]

def written (files : Files) (path text : String) : Except FileFault Unit × Files :=
  match files.write path text.toUTF8.toList with
  | .ok after => (.ok (), after)
  | .error fault => (.error fault, files)

theorem read_put (relative : isAbsolute path = false) (plain : path.endsWith "/" = false) :
    (files.put path bytes).read path = .ok bytes := by
  simp [read, relative, plain, contents?_put]

end Directory
end Files

section Run
variable {files : Files} {α β : Type}

/-- What an attempt comes to that leaves the files as they are. -/
def Finds (files : Files) (x : ExceptT Failure (StateM Files) α) (e : Except Failure α) : Prop :=
  Id.run (x.run.run files) = (e, files)

theorem run_bind (x : StateM Files α) (k : α → StateM Files β) :
    Id.run ((x >>= k).run files) =
      Id.run ((k (Id.run (x.run files)).1).run (Id.run (x.run files)).2) := rfl

theorem run_attempt_bind (x : ExceptT Failure (StateM Files) α)
    (k : α → ExceptT Failure (StateM Files) β) :
    Id.run ((x >>= k).run.run files) =
      Id.run ((ExceptT.bindCont k (Id.run (x.run.run files)).1).run
        (Id.run (x.run.run files)).2) := rfl

theorem run_lift (x : StateM Files α) :
    Id.run ((liftM x : ExceptT Failure (StateM Files) α).run.run files) =
      (.ok (Id.run (x.run files)).1, (Id.run (x.run files)).2) := rfl

theorem run_write (path text : String) :
    Id.run ((Files.disk.write path text).run files) = files.written path text := by
  unfold Files.disk Files.written
  dsimp only
  rw [run_bind]
  have got : Id.run ((get : StateM Files Files).run files) = (files, files) := rfl
  rw [got]
  dsimp only
  cases files.write path text.toUTF8.toList <;> rfl

theorem Finds.run_bind_ok {x : ExceptT Failure (StateM Files) α} {a : α}
    (h : Finds files x (.ok a)) (k : α → ExceptT Failure (StateM Files) β) :
    Id.run ((x >>= k).run.run files) = Id.run ((k a).run.run files) := by
  rw [run_attempt_bind, h]
  rfl

theorem Finds.run_bind_error {x : ExceptT Failure (StateM Files) α} {f : Failure}
    (h : Finds files x (.error f)) (k : α → ExceptT Failure (StateM Files) β) :
    Id.run ((x >>= k).run.run files) = (.error f, files) := by
  rw [run_attempt_bind, h]
  rfl

theorem Finds.bind {x : ExceptT Failure (StateM Files) α} {e : Except Failure α}
    {k : α → ExceptT Failure (StateM Files) β} {g : α → Except Failure β} (hx : Finds files x e)
    (hk : ∀ a, Finds files (k a) (g a)) : Finds files (x >>= k) (e >>= g) := by
  cases e with
  | error f => exact hx.run_bind_error k
  | ok a => exact (hx.run_bind_ok k).trans (hk a)

theorem finds_pure (a : α) : Finds files (pure a) (.ok a) := rfl

theorem readFile_finds (c : Document.Codec α) (path key : String) :
    Finds files (readFile Files.disk c path key) (files.document c path key) := by
  have reads : Finds files (liftM (Files.disk.read path)) (.ok (files.read path)) := rfl
  rw [Finds, readFile, reads.run_bind_ok, Files.document]
  cases files.read path with
  | error fault => cases fault <;> rfl
  | ok bytes =>
    dsimp only
    cases readDocument c key bytes <;> rfl

theorem compileFile_finds (config : String) (lookup : Option String) :
    Finds files (compileFile Files.disk config lookup) (files.text config lookup) := by
  refine (readFile_finds _ _ _).bind fun settings => ?_
  cases lookup with
  | none =>
    refine (finds_pure Registry.empty).bind fun registry => ?_
    dsimp only
    cases Router.resolve settings registry >>= Router.compile <;> rfl
  | some path =>
    refine (readFile_finds _ _ _).bind fun registry => ?_
    dsimp only
    cases Router.resolve settings registry >>= Router.compile <;> rfl

def Files.emit (files : Files) (text : String) : Option String → Except Failure String × Files
  | none => (.ok text, files)
  | some path =>
    match files.write path text.toUTF8.toList with
    | .ok after => (.ok "", after)
    | .error fault => (.error (.writing path fault), files)

variable {config text : String} {lookup output : Option String}

theorem serve_check_finds : Finds files (serve Files.disk (.check config lookup))
    (files.text config lookup >>= fun _ => .ok "") :=
  (compileFile_finds config lookup).bind fun _ => finds_pure ""

theorem serve_compile_finds {f : Failure} (h : files.text config lookup = .error f) :
    Finds files (serve Files.disk (.compile config lookup output)) (.error f) := by
  have found : Finds files (compileFile Files.disk config lookup) (files.text config lookup) :=
    compileFile_finds config lookup
  rw [h] at found
  exact found.run_bind_error _

theorem run_serve_compile (h : files.text config lookup = .ok text) :
    Id.run ((serve Files.disk (.compile config lookup output)).run.run files) =
      files.emit text output := by
  have found : Finds files (compileFile Files.disk config lookup) (files.text config lookup) :=
    compileFile_finds config lookup
  rw [h] at found
  rw [serve, found.run_bind_ok]
  cases output with
  | none => rfl
  | some path =>
    dsimp only
    rw [run_attempt_bind, run_lift, run_write]
    unfold Files.written Files.emit
    dsimp only
    cases files.write path text.toUTF8.toList <;> rfl

def Outcome.of : Except Failure String → Outcome
  | .ok text => .done text
  | .error f => .failed f

theorem runOn_eq {args : List String} {request : Request} (h : read args = some request) :
    runOn files args = (Outcome.of (Id.run ((serve Files.disk request).run.run files)).1,
      (Id.run ((serve Files.disk request).run.run files)).2) := by
  rw [runOn, run, h]
  dsimp only
  rw [run_bind]
  obtain ⟨result, after⟩ := Id.run ((serve Files.disk request).run.run files)
  cases result <;> rfl

end Run

/-- The text and nothing else has been put out, and the other files are what they were. -/
def Emitted (files : Files) (text : String) (compiled : Outcome) (after : Files) :
    Option String → Prop
  | none => compiled = .done text ∧ after = files
  | some path => compiled = .done "" ∧ after.read path = .ok text.toUTF8.toList ∧
    ∀ other, Files.components other ≠ Files.components path →
      after.contents? (Files.components other) = files.contents? (Files.components other)

/-- Putting a text out succeeds, or it fails where nothing can be written and changes nothing. -/
theorem emit_cases (files : Files) (text : String) (output : Option String) :
    (∃ shown after, files.emit text output = (.ok shown, after) ∧
      Emitted files text (.done shown) after output) ∨
    ∃ f, files.emit text output = (.error f, files) ∧ ¬ files.Writable output := by
  cases output with
  | none => exact .inl ⟨_, _, rfl, rfl, rfl⟩
  | some path =>
    unfold Files.emit
    dsimp only
    cases hwrite : files.write path text.toUTF8.toList with
    | ok after =>
      obtain ⟨⟨relative, _, plain, _⟩, rfl⟩ := Files.write_eq_ok_iff.mp hwrite
      refine .inl ⟨_, _, rfl, rfl, Files.read_put relative plain, fun other away => ?_⟩
      rw [Files.contents?_put, if_neg (Ne.symm away)]
    | error fault =>
      refine .inr ⟨_, rfl, ?_⟩
      rintro ⟨bytes, after, writes⟩
      have written : files.write path text.toUTF8.toList = .ok (files.put path _) :=
        Files.write_eq_ok_iff.mpr ⟨(Files.write_eq_ok_iff.mp writes).1, rfl⟩
      exact nomatch hwrite.symm.trans written

/-- Nothing is written before everything is checked. What is resolved can be compiled, with each of
its filters and functions. Checking a configuration changes no file and prints nothing; it succeeds
where the configuration compiles, and else compiling ends in the same way. A run that fails prints
nothing and changes no file. A run that succeeds puts the text out, to where it should go. -/
theorem validated_before_output {files : Files} {config : String} {lookup output : Option String}
    {checkArgs compileArgs : List String} (hcheck : read checkArgs = some (.check config lookup))
    (hcompile : read compileArgs = some (.compile config lookup output)) :
    (∀ settings registry router, Router.resolve settings registry = .ok router →
      (∀ p f stage, ∃ program, Filter.ofPeer ⟨some router.asn⟩ p f stage = .ok program) ∧
      (∃ shared, Filter.sharedFunctions ⟨some router.asn⟩ = .ok shared) ∧
      ∃ ds, router.declarations = .ok ds ∧ router.compile = .ok (Declaration.render ds)) ∧
    ∃ checked compiled after,
      runOn files checkArgs = (checked, files) ∧ runOn files compileArgs = (compiled, after) ∧
      checked.stdout = "" ∧
      (checked.exit = 0 ↔ ∃ text, files.Compiles config lookup text) ∧
      (checked.exit ≠ 0 → compiled = checked) ∧
      (files.Writable output → (checked.exit = 0 ↔ compiled.exit = 0)) ∧
      (compiled.exit ≠ 0 → compiled.stdout = "" ∧ after = files) ∧
      (compiled.exit = 0 →
        ∃ text, files.Compiles config lookup text ∧ Emitted files text compiled after output) := by
  refine ⟨fun settings registry router _ => ⟨fun p f stage => ?_, ⟨_, rfl⟩, router.layout,
    router.declarations_eq, router.compile_eq⟩, ?_⟩
  · exact Filter.exists_ofPeer router.asn p f stage
  · have checks : runOn files checkArgs =
        (Outcome.of (files.text config lookup >>= fun _ => .ok ""), files) := by
      rw [runOn_eq hcheck, serve_check_finds]
    have compiles := @runOn_eq files _ _ hcompile
    cases htext : files.text config lookup with
    | error f =>
      rw [htext] at checks
      rw [serve_compile_finds htext] at compiles
      have uncompiled : ¬ ∃ text, files.Compiles config lookup text := by
        rintro ⟨text, h⟩
        exact nomatch htext.symm.trans (Files.text_eq_ok_iff.mpr h)
      have failed : (Outcome.failed f).exit ≠ 0 := Nat.one_ne_zero
      exact ⟨_, _, _, checks, compiles, rfl, iff_of_false failed uncompiled, fun _ => rfl,
        fun _ => .rfl, fun _ => ⟨rfl, rfl⟩, fun ends => absurd ends failed⟩
    | ok text =>
      rw [htext] at checks
      rw [run_serve_compile htext] at compiles
      have compiled := Files.text_eq_ok_iff.mp htext
      have accepted : (Outcome.done "").exit = 0 ↔ ∃ text, files.Compiles config lookup text :=
        iff_of_true rfl ⟨text, compiled⟩
      obtain ⟨shown, after, hemit, emitted⟩ | ⟨f, hemit, unwritable⟩ :=
        emit_cases files text output
      · rw [hemit] at compiles
        exact ⟨_, _, _, checks, compiles, rfl, accepted, fun fails => absurd rfl fails,
          fun _ => .rfl, fun fails => absurd rfl fails, fun _ => ⟨text, compiled, emitted⟩⟩
      · rw [hemit] at compiles
        exact ⟨_, _, _, checks, compiles, rfl, accepted, fun fails => absurd rfl fails,
          fun writable => absurd writable unwritable, fun _ => ⟨rfl, rfl⟩,
          fun ends => absurd ends Nat.one_ne_zero⟩

def sampleFiles : Files :=
  [("a", Document.ascii "\x7b\"asn\": 65000\x7d"), ("r", Document.ascii "\x7b\"asn\": 0\x7d"),
    ("o", Document.ascii "old")]

theorem components_sample : Files.components "a" = ["a"] ∧ Files.components "r" = ["r"] ∧
    Files.components "o" = ["o"] := by
  refine ⟨?_, ?_, ?_⟩
  all_goals
    rw [Files.components, String.splitOn, if_neg (by decide)]
    rw [String.splitOnAux, if_neg (by decide +kernel), if_neg (by decide +kernel)]
    rw [String.splitOnAux, if_pos (by decide +kernel)]
    decide +kernel

theorem read_sample :
    sampleFiles.read "a" = .ok (Document.ascii "\x7b\"asn\": 65000\x7d") ∧
      sampleFiles.read "r" = .ok (Document.ascii "\x7b\"asn\": 0\x7d") := by
  obtain ⟨accepted, refused, output⟩ := components_sample
  have relative : Files.isAbsolute "a" = false ∧ Files.isAbsolute "r" = false := by decide +kernel
  have plain : "a".endsWith "/" = false ∧ "r".endsWith "/" = false := by decide +kernel
  simp [Files.read, Files.contents?, sampleFiles, accepted, refused, relative, plain]

theorem writable_sample : sampleFiles.Writable (some "o") := by
  obtain ⟨accepted, refused, output⟩ := components_sample
  have relative : Files.isAbsolute "o" = false := by decide +kernel
  have plain : "o".endsWith "/" = false := by decide +kernel
  refine ⟨[], _, Files.write_eq_ok_iff.mpr ⟨⟨relative, ?_, plain, ?_⟩, rfl⟩⟩
  · simp [Files.isDirectory, sampleFiles, accepted, refused, output]
  · simp [Files.isDirectory, output]

/-- What is accepted replaces the old output; what is refused leaves it. -/
theorem validated_before_output_sample :
    (read ["check", "a"] = some (.check "a" none) ∧
      read ["compile", "a", "-o", "o"] = some (.compile "a" none (some "o")) ∧
      read ["check", "r"] = some (.check "r" none) ∧
      read ["compile", "r", "-o", "o"] = some (.compile "r" none (some "o"))) ∧
    (∃ text after, sampleFiles.Compiles "a" none text ∧
      runOn sampleFiles ["compile", "a", "-o", "o"] = (.done "", after) ∧
      after.read "o" = .ok text.toUTF8.toList) ∧
    ∃ failed, runOn sampleFiles ["check", "r"] = (failed, sampleFiles) ∧
      runOn sampleFiles ["compile", "r", "-o", "o"] = (failed, sampleFiles) ∧
      failed.exit ≠ 0 := by
  have checksA : read ["check", "a"] = some (.check "a" none) := by decide +kernel
  have compilesA : read ["compile", "a", "-o", "o"] =
      some (.compile "a" none (some "o")) := by decide +kernel
  have checksR : read ["check", "r"] = some (.check "r" none) := by decide +kernel
  have compilesR : read ["compile", "r", "-o", "o"] =
      some (.compile "r" none (some "o")) := by decide +kernel
  refine ⟨⟨checksA, compilesA, checksR, compilesR⟩, ?_, ?_⟩
  · obtain ⟨_, checked, compiled, after, _, hcompiled, _, accepted, _, agree, _, emits⟩ :=
      @validated_before_output sampleFiles _ _ _ _ _ checksA compilesA
    have hsettings : readSettings (Document.ascii "\x7b\"asn\": 65000\x7d") =
        .ok (.plain 65000 []) := by decide +kernel
    have compiles : ∃ text, sampleFiles.Compiles "a" none text :=
      ⟨_, _, _, .empty, .plain 65000 [], read_sample.1, hsettings, rfl, rfl, Router.compile_eq _⟩
    obtain ⟨text, compiles, rfl, emitted, _⟩ :=
      emits ((agree writable_sample).mp (accepted.mpr compiles))
    exact ⟨text, after, compiles, hcompiled, emitted⟩
  · obtain ⟨_, checked, compiled, after, hchecked, hcompiled, _, accepted, same, _, keeps, _⟩ :=
      @validated_before_output sampleFiles _ _ _ _ _ checksR compilesR
    have hsettings : readSettings (Document.ascii "\x7b\"asn\": 0\x7d") = .ok (.plain 0 []) := by
      decide +kernel
    have refused : checked.exit ≠ 0 := by
      intro ends
      obtain ⟨text, bytes, s, reg, router, hbytes, hs, _, hrouter, _⟩ := accepted.mp ends
      obtain rfl := Except.ok.inj (hbytes.symm.trans read_sample.2)
      obtain rfl := Except.ok.inj (hs.symm.trans hsettings)
      exact nomatch hrouter
    obtain rfl := same refused
    obtain ⟨_, rfl⟩ := keeps refused
    exact ⟨compiled, hchecked, hcompiled, refused⟩

end Peering.CommandLine
