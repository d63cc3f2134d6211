import EdgeQuery.CommandLine
import EdgeQuery.Proofs.Fault.Message
import EdgeQuery.Proofs.SourceFile.Separated

/-!
The command that checks files. Each fault takes one line, so what is printed tells the faults apart,
and the number of lines, the number that is reported and the code that the command ends with say the
same. Nothing rests on how the arguments are read or on what is logged.
-/

namespace EdgeQuery

open Text

section Lines

variable {lines : List String}

theorem toList_unlines (lines : List String) :
    (unlines lines).toList = lines.flatMap fun line => line.toList ++ ['\n'] := by
  rw [unlines, String.toList_join, List.flatMap_map]
  congr 1
  funext line
  rw [String.toList_append]
  rfl

/-- Lines without line feeds can be told apart again. The induction is on the lines. -/
theorem splitOn_unlines (h : ∀ line ∈ lines, '\n' ∉ line.toList) :
    (unlines lines).toList.splitOn '\n' = lines.map String.toList ++ [[]] := by
  rw [toList_unlines]
  induction lines with
  | nil => rfl
  | cons line lines ih =>
    obtain ⟨hline, hlines⟩ := List.forall_mem_cons.mp h
    rw [List.flatMap_cons, List.append_assoc, List.singleton_append, List.map_cons,
      List.cons_append, ← ih hlines]
    refine List.splitOnP_append_cons_of_forall_mem (fun c hc => ?_) '\n' (by decide) _
    exact beq_false_of_ne (ne_of_mem_of_not_mem hc hline)

theorem count_unlines (h : ∀ line ∈ lines, '\n' ∉ line.toList) :
    (unlines lines).toList.count '\n' = lines.length := by
  rw [toList_unlines]
  induction lines with
  | nil => rfl
  | cons line lines ih =>
    obtain ⟨hline, hlines⟩ := List.forall_mem_cons.mp h
    rw [List.flatMap_cons, List.count_append, List.count_append, List.count_eq_zero.mpr hline,
      ih hlines, List.length_cons]
    simp only [List.count_singleton_self]
    omega

theorem not_mem_unlines {c : Char} (h : ∀ line ∈ lines, c ∉ line.toList) (hne : c ≠ '\n') :
    c ∉ (unlines lines).toList := by
  rw [toList_unlines, List.mem_flatMap]
  rintro ⟨line, hmem, hline⟩
  rcases List.mem_append.mp hline with hline | hend
  · exact h line hmem hline
  · exact hne (List.mem_singleton.mp hend)

end Lines

/-- The texts that the paths stand for, read one after the other. The standard input is empty when
it is read again. -/
inductive Surroundings.Reads : Surroundings → List String → List Input → Prop
  | done (surroundings : Surroundings) : Reads surroundings [] []
  | next {surroundings later : Surroundings} {path : String} {input : Input} {paths : List String}
      {inputs : List Input} : surroundings.read (some path) = (.ok input, later) →
      Reads later paths inputs → Reads surroundings (path :: paths) (input :: inputs)

/-- The lines that tell of the faults in a text. -/
def Input.faultLines (input : Input) (dialect : Dialect) : List String :=
  (SourceFile.recoverText input.text dialect).2.map fun error =>
    (Diagnostic.ofError input.name (LineIndex.ofText input.text) error).text

/-- What can be relied on in the facilities, whatever else they do. -/
structure Facilities.Reliable (facilities : Facilities) : Prop where
  /-- A description begins with the message. What else there is to say, such as the cause, is said
  on further lines. -/
  describes : ∀ failure, ∃ more, facilities.describe failure = failure.message ++ more ∧
    ∀ c ∈ more.toList.head?, c = '\n'
  /-- Where only warnings are asked for, no event is logged. -/
  quiet : ∀ event, facilities.log .warning event = ""

/-- The outcome tells of all faults in the texts, text by text and in each of them by their places,
each on a line of its own. The command succeeds exactly if all the texts can be read as files; if
not, it says behind its log how many lines it has printed. -/
structure Outcome.Reports (outcome : Outcome) (dialect : Dialect) (inputs : List Input)
    (log : String) : Prop where
  lines : outcome.output.toList.splitOn '\n' =
    (inputs.flatMap (·.faultLines dialect)).map String.toList ++ [[]]
  noReturn : '\r' ∉ outcome.output.toList
  count : outcome.output.toList.count '\n' =
    (inputs.map fun input => (SourceFile.recoverText input.text dialect).2.length).sum
  inOrder : ∀ input ∈ inputs, (SourceFile.recoverText input.text dialect).2.Pairwise
    fun error other => error.span.start < other.span.start
  code_eq_zero : outcome.code = 0 ↔
    ∀ input ∈ inputs, ∃ file, SourceFile.ofText input.text dialect = .ok file
  errors : outcome.code = 0 ∧ outcome.errors = log ∨ outcome.code = 1 ∧
    ∃ more, outcome.errors = log ++ "Error: " ++ (toString (outcome.output.toList.count '\n') ++
      " error(s) found" ++ more) ++ "\n" ∧ ∀ c ∈ more.toList.head?, c = '\n'

section Checking

variable {surroundings later : Surroundings} {path : String} {paths : List String} {input : Input}
  {inputs : List Input} {dialect : Dialect} {facilities : Facilities} {invocation : Invocation}

/-- A text is reported under its path, or as the standard input. -/
theorem Surroundings.name_of_read (h : surroundings.read (some path) = (.ok input, later)) :
    input.name = path ∨ input.name = "<stdin>" := by
  unfold read at h
  split at h
  · have hread := congrArg Prod.fst h
    unfold readInput at hread
    dsimp only at hread
    split at hread
    · cases hread
      exact .inr rfl
    · cases hread
  · have hread := congrArg Prod.fst h
    unfold readFile at hread
    dsimp only at hread
    split at hread
    · cases hread
      exact .inl rfl
    · cases hread

theorem Surroundings.Reads.onOneLine_name (h : surroundings.Reads paths inputs)
    (hpaths : ∀ path ∈ paths, OnOneLine path.toList) :
    ∀ input ∈ inputs, OnOneLine input.name.toList := by
  induction h with
  | done => exact List.forall_mem_nil _
  | next hread _ ih =>
    obtain ⟨hpath, hmore⟩ := List.forall_mem_cons.mp hpaths
    refine List.forall_mem_cons.mpr ⟨?_, ih hmore⟩
    rcases name_of_read hread with hname | hname <;> rw [hname]
    · exact hpath
    · decide

theorem Input.onOneLine_faultLines (hname : OnOneLine input.name.toList) :
    ∀ line ∈ input.faultLines dialect, OnOneLine line.toList := by
  intro line hmem
  obtain ⟨error, herror, rfl⟩ := List.mem_map.mp hmem
  have hmessage : OnOneLine error.message.toList := SyntaxError.onOneLine_message
    (SourceFile.recover_names (Cursor.ofText_between input.text dialect nestingLimit) error herror)
  exact .concat (.concat (.concat (.concat (.concat (.concat hname (by decide))
    (onOneLine_toString _)) (by decide)) (onOneLine_toString _)) (by decide)) hmessage

theorem Input.text_check (input : Input) (dialect : Dialect) :
    (input.check dialect).map Diagnostic.text = input.faultLines dialect :=
  List.map_map

/-- The faults are found text by text. The induction is on the texts. -/
theorem Command.checkAll_of_reads (h : surroundings.Reads paths inputs) :
    checkAll dialect surroundings paths =
      (inputs.flatMap (·.check dialect), inputs.flatMap (·.events dialect), none) := by
  induction h with
  | done => rfl
  | next hread _ ih =>
    rw [checkAll, hread]
    dsimp only
    rw [ih, List.flatMap_cons, List.flatMap_cons]

theorem Command.run_check (h : surroundings.Reads paths inputs) (writer : JsonWriter) :
    (Command.check paths).run dialect surroundings writer =
      let lines := inputs.flatMap (·.faultLines dialect)
      ⟨unlines lines, inputs.flatMap (·.events dialect),
        if lines.isEmpty then none else some (.found lines.length)⟩ := by
  have hlines : (inputs.flatMap (·.check dialect)).map Diagnostic.text =
      inputs.flatMap (·.faultLines dialect) := by
    rw [List.map_flatMap]
    simp only [Input.text_check]
  rw [run, checkAll_of_reads h]
  dsimp only
  rw [← hlines, List.length_map, List.isEmpty_map]
  rfl

/-- What the command comes to when all paths can be read. -/
theorem Facilities.perform_check (hcommand : invocation.command = .check paths)
    (hreads : surroundings.Reads paths inputs) :
    facilities.perform invocation surroundings =
      let lines := inputs.flatMap (·.faultLines invocation.dialect)
      let log := facilities.logOf invocation (inputs.flatMap (·.events invocation.dialect))
      if lines.isEmpty then ⟨0, unlines lines, log⟩
      else ⟨1, unlines lines,
        log ++ "Error: " ++ facilities.describe (.found lines.length) ++ "\n"⟩ := by
  rw [perform, hcommand, Command.run_check hreads]
  dsimp only
  cases (inputs.flatMap (·.faultLines invocation.dialect)).isEmpty <;> rfl

/-- Nothing is logged unless it is asked for. -/
theorem Facilities.Reliable.logOf_eq (h : facilities.Reliable) (hquiet : invocation.verbose = false)
    (events : List Event) : facilities.logOf invocation events = "" := by
  have hlevel : invocation.logLevel = .warning := by
    rw [Invocation.logLevel, hquiet]
    rfl
  rw [logOf, hlevel, ← String.toList_inj, String.toList_join, List.flatMap_map]
  simp [h.quiet]

theorem Input.length_faultLines (inputs : List Input) (dialect : Dialect) :
    (inputs.flatMap (·.faultLines dialect)).length =
      (inputs.map fun input => (SourceFile.recoverText input.text dialect).2.length).sum := by
  simp only [List.length_flatMap, faultLines, List.length_map]

/-- There are no lines exactly if every text is a file. -/
theorem Input.faultLines_eq_nil :
    inputs.flatMap (·.faultLines dialect) = [] ↔
      ∀ input ∈ inputs, ∃ file, SourceFile.ofText input.text dialect = .ok file := by
  simp only [List.flatMap_eq_nil_iff, faultLines, List.map_eq_nil_iff,
    SourceFile.ofText_eq_upToFault, SourceFile.exists_upToFault_eq_ok]

/-- Lines that tell of the faults, with what goes with them. -/
theorem Facilities.Reliable.reports (hreliable : facilities.Reliable) (log : String)
    (h : ∀ input ∈ inputs, OnOneLine input.name.toList) :
    let lines := inputs.flatMap (·.faultLines dialect)
    Outcome.Reports
      (if lines.isEmpty then ⟨0, unlines lines, log⟩
        else ⟨1, unlines lines,
          log ++ "Error: " ++ facilities.describe (.found lines.length) ++ "\n"⟩)
      dialect inputs log := by
  intro lines
  have hlines : ∀ line ∈ lines, OnOneLine line.toList := by
    intro line hmem
    obtain ⟨input, hinput, hline⟩ := List.mem_flatMap.mp hmem
    exact Input.onOneLine_faultLines (h input hinput) line hline
  have hsplit := splitOn_unlines fun line hmem => (hlines line hmem).1
  have hreturn := not_mem_unlines (fun line hmem => (hlines line hmem).2) (by decide)
  have hfeeds := count_unlines fun line hmem => (hlines line hmem).1
  have hcount := hfeeds.trans (Input.length_faultLines inputs dialect)
  have horder := fun (input : Input) (_ : input ∈ inputs) =>
    (SourceFile.recoverText_apart input.text dialect).imp SourceFile.start_lt_of_apart
  have hfiles : lines = [] ↔ _ := Input.faultLines_eq_nil
  cases hnone : lines.isEmpty with
  | true =>
    have hall := hfiles.mp (List.isEmpty_iff.mp hnone)
    exact ⟨hsplit, hreturn, hcount, horder, iff_of_true rfl hall, .inl ⟨rfl, rfl⟩⟩
  | false =>
    have hsome : ¬ _ := fun hall => List.isEmpty_eq_false_iff.mp hnone (hfiles.mpr hall)
    have hone : (1 : UInt32) ≠ 0 := by decide
    obtain ⟨more, hdescribe, hmore⟩ := hreliable.describes (.found lines.length)
    have hmessage : facilities.describe (.found lines.length) =
        toString ((unlines lines).toList.count '\n') ++ " error(s) found" ++ more := by
      rw [hdescribe, hfeeds]
      rfl
    exact ⟨hsplit, hreturn, hcount, horder, iff_of_false hone hsome,
      .inr ⟨rfl, more, congrArg (log ++ "Error: " ++ · ++ "\n") hmessage, hmore⟩⟩

end Checking

/-- Whatever a parser is called for, and however a text is read, the message of a fault stays on one
line. So the command that checks files prints one line for each of their faults, and reports as many
faults as lines, whatever reads its arguments, describes failures and logs events. -/
theorem faults_on_lines :
    (∀ text dialect limit calls,
      ∀ answer ∈ Call.answers calls (Cursor.ofText text dialect limit),
        ∀ error ∈ answer.faults, OnOneLine error.message.toList) ∧
    (∀ text dialect error, SourceFile.ofText text dialect = .error error ∨
        Statement.ofText text dialect = .error error ∨ Expr.ofText text dialect = .error error ∨
        error ∈ (SourceFile.recoverText text dialect).2 →
      OnOneLine error.message.toList) ∧
    ∀ (facilities : Facilities) arguments setting surroundings invocation paths inputs,
      facilities.Reliable → facilities.readArguments arguments setting = .ok invocation →
      invocation.command = .check paths → surroundings.Reads paths inputs →
      (∀ path ∈ paths, OnOneLine path.toList) →
      let log := facilities.logOf invocation (inputs.flatMap (·.events invocation.dialect))
      (facilities.runCommandLine arguments setting surroundings).Reports invocation.dialect inputs
          log ∧
        (invocation.verbose = false → log = "") := by
  refine ⟨fun text dialect limit calls answer hanswer error herror => ?_,
    fun text dialect error herror => ?_, ?_⟩
  · have hbetween := Cursor.ofText_between text dialect limit
    exact SyntaxError.onOneLine_message
      (Call.answers_names calls hbetween answer hanswer error herror)
  · refine SyntaxError.onOneLine_message (?_ : error.Genuine dialect)
    rcases herror with hfile | hstatement | hexpr | hfound
    · exact SourceFile.parse_names.of_run hfile
    · exact Statement.parseSingle_names.of_run hstatement
    · exact Expr.parseSingle_names.of_run hexpr
    · exact SourceFile.recover_names (Cursor.ofText_between text dialect nestingLimit) error hfound
  · intro facilities arguments setting surroundings invocation paths inputs hreliable harguments
      hcommand hreads hpaths log
    refine ⟨?_, fun hquiet => hreliable.logOf_eq hquiet _⟩
    rw [Facilities.runCommandLine, harguments]
    dsimp only
    rw [Facilities.perform_check hcommand hreads]
    exact hreliable.reports log (hreads.onOneLine_name hpaths)

set_option maxRecDepth 8192 in
/-- A fault that finds a string of two lines, in the first of two files. -/
theorem faults_on_lines_string :
    let surroundings : Surroundings := ⟨.empty, fun path =>
      if path = "a" then .ok "CREATE 'x\ny'".toUTF8 else .ok "1".toUTF8⟩
    let facilities : Facilities :=
      ⟨fun arguments _ => .ok ⟨false, false, .check arguments.tail⟩, Failure.message,
        fun _ _ => "", ⟨fun _ => .error "", fun _ => .error ""⟩⟩
    let error : SyntaxError := .unexpected [.identifier, .variable] (.string "x\ny") ⟨7, 12⟩
    let outcome := facilities.runCommandLine ["check", "a", "b"] none surroundings
    error ∈ (SourceFile.recoverText "CREATE 'x\ny'" .strict).2 ∧ OnOneLine error.message.toList ∧
      outcome.Reports .strict [⟨"a", "CREATE 'x\ny'"⟩, ⟨"b", "1"⟩] "" ∧
      outcome = ⟨1, "a:1:8: expected identifier or variable, found string \"x\\ny\"\n",
        "Error: 1 error(s) found\n"⟩ := by
  intro surroundings facilities error outcome
  let invocation : Invocation := ⟨false, false, .check ["a", "b"]⟩
  have hreliable : facilities.Reliable :=
    ⟨fun failure => ⟨"", (String.append_empty).symm, nofun⟩, fun _ => rfl⟩
  have hreads : surroundings.Reads ["a", "b"] [⟨"a", "CREATE 'x\ny'"⟩, ⟨"b", "1"⟩] :=
    .next (by cbv) (.next (by cbv) (.done surroundings))
  have hfirst : (SourceFile.recoverText "CREATE 'x\ny'" .strict).2 = [error] := by cbv
  have hsecond : (SourceFile.recoverText "1" .strict).2 = [] := by cbv
  have hfound : error ∈ (SourceFile.recoverText "CREATE 'x\ny'" .strict).2 :=
    List.mem_of_mem_head? (congrArg List.head? hfirst)
  obtain ⟨hreports, hlog⟩ := faults_on_lines.2.2 facilities ["check", "a", "b"] none surroundings
    invocation _ _ hreliable rfl rfl hreads (by decide)
  rw [hlog rfl] at hreports
  refine ⟨hfound, faults_on_lines.2.1 _ _ _ (.inr (.inr (.inr hfound))), hreports, ?_⟩
  have hlines : ([⟨"a", "CREATE 'x\ny'"⟩, ⟨"b", "1"⟩] : List Input).flatMap
      (·.faultLines .strict) =
        [(Diagnostic.ofError "a" (LineIndex.ofText "CREATE 'x\ny'") error).text] := by
    simp only [List.flatMap_cons, List.flatMap_nil, Input.faultLines, hfirst, hsecond,
      List.map_cons, List.map_nil, List.append_nil]
  have hdialect : invocation.dialect = .strict := rfl
  show facilities.perform invocation surroundings = _
  rw [Facilities.perform_check rfl hreads, hreliable.logOf_eq rfl, hdialect, hlines]
  decide

end EdgeQuery
