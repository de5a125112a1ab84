import Compare68k.Cli.Run
import Compare68k.Proofs.Listing.Words
import Compare68k.Proofs.Script.Moments
/-!
# What is printed about a script

A script that runs to its end is printed as one line for each instruction and the registers.  The
lines are made when the script is over.  Main statement: they are in the order of the instructions,
each with the address, the cycles and the activities of its instruction, and with the listing of
what the final memory holds at that address; that is the instruction that was run if nothing has
been stored over it since.
-/

namespace Compare68k.Cli

open Script

def freshRun (bits : UInt32) : Script.Run Ram :=
  { processor := .ofTable .standard, bus := scriptMemory bits }

theorem ready_freshRun (bits : UInt32) : (freshRun bits).Ready .standard where
  table := rfl
  between := ⟨rfl, rfl, rfl⟩
  bits := by
    show max 1 (min 24 bits.toNat) ≤ 24
    omega

theorem runSource_of_exit {verbosity : Nat} {path source : String} {bits : UInt32}
    (h : (runSource verbosity path source bits).exit = 0) :
    ∃ list final, Script.parse source = .ok list ∧
      Script.Run.statements list (freshRun bits) = .ok final ∧ final.stopped = none ∧
      (runSource verbosity path source bits).output =
        lines (timingLines final ++ [final.processor.registers.display]) := by
  rw [runSource] at h ⊢
  cases hparse : Script.parse source with
  | error cs =>
    rw [hparse] at h
    cases h
  | ok list =>
    rw [hparse] at h
    dsimp only at h ⊢
    cases hrun : Script.Run.statements list (freshRun bits) with
    | error fault =>
      rw [show Script.Run.statements list
        { processor := .ofTable .standard, bus := scriptMemory bits } = _ from hrun] at h
      cases h
    | ok final =>
      rw [show Script.Run.statements list
        { processor := .ofTable .standard, bus := scriptMemory bits } = _ from hrun] at h ⊢
      dsimp only at h ⊢
      cases hstopped : final.stopped with
      | some b =>
        rw [hstopped] at h
        cases h
      | none => exact ⟨list, final, rfl, hrun, hstopped, rfl⟩

theorem runTrace_of_exit {verbosity : Nat} {path : String} {contents : Except FileError ByteArray}
    {bits : UInt32} (h : (runTrace verbosity path contents bits).exit = 0) :
    ∃ bytes source, contents = .ok bytes ∧ String.fromUTF8? bytes = some source ∧
      runTrace verbosity path contents bits = runSource verbosity path source bits := by
  cases contents with
  | error e => cases h
  | ok bytes =>
    cases hsource : String.fromUTF8? bytes with
    | none =>
      rw [runTrace, hsource] at h
      cases h
    | some source =>
      refine ⟨bytes, source, rfl, hsource, ?_⟩
      rw [runTrace, hsource]

theorem runTrace_toUTF8 (verbosity : Nat) (path source : String) (bits : UInt32) :
    runTrace verbosity path (.ok source.toUTF8) bits = runSource verbosity path source bits := by
  have hvalid : source.toUTF8.IsValidUTF8 := source.isValidUTF8
  have htext : String.fromUTF8? source.toUTF8 = some source := by
    rw [String.fromUTF8?, dif_pos hvalid]
    rfl
  rw [runTrace, htext]

/-- The line about an instruction is made from the final memory. -/
theorem getElem?_timingLines {final : Script.Run Ram} (hfinal : final.Ready .standard) {j : Nat}
    {report : Report} {line : Line} (h : final.executions[j]? = some (report, line)) :
    (timingLines final)[j]? = some (timingText report
      (Table.standard.disassemble (Bus.peekWord final.bus) report.address)) := by
  rw [timingLines, Run.reports_eq, List.getElem?_map, List.getElem?_map, h]
  show some (timingText report (final.processor.table.disassemble _ _)) = _
  rw [hfinal.table]

/-! ## A script that stores over what it has run -/

def comparedMemory : Ram :=
  Bus.writeBytes (scriptMemory 4) 0 (bytesOf [0xB607])

def comparedProcessor : Processor where
  table := .standard
  cpu :=
    { registers := { pc := 2, status := 4 }
      progress := .finished
      ledger := ⟨4, [.prefetch]⟩ }

def comparedReport : Report :=
  ⟨0, 0xB607, 1, 4, [.prefetch]⟩

def comparedLine : Line :=
  Table.standard.disassemble (Bus.peekWord comparedMemory) 0

/-- A run that stores `CMP.B D7,D3`, steps over it and then stores a word at some address. -/
def comparedRun (a : Address) : Script.Run Ram where
  processor := comparedProcessor
  bus := Bus.writeBytes comparedMemory a (bytesOf [0xFFFF])
  journal := #[.poked 0 1, .executed comparedReport comparedLine, .poked a 1]

theorem statements_compared (a : Address) (x y z : Span) :
    Script.Run.statements [⟨x, .poke 0 [0xB607]⟩, ⟨y, .step 1⟩, ⟨z, .poke a [0xFFFF]⟩]
      (freshRun 4) = .ok (comparedRun a) := by
  let poked : Script.Run Ram := (freshRun 4).poke 0 [0xB607]
  let stepped : Script.Run Ram :=
    { processor := comparedProcessor
      bus := comparedMemory
      journal := #[.poked 0 1, .executed comparedReport comparedLine] }
  have hadvance : (Processor.ofTable .standard).advance comparedMemory =
      .ok (.ok (some ⟨0, 0xB607, .cmp⟩), comparedProcessor, comparedMemory) := by rfl
  have hpoke : (freshRun 4).act (.poke 0 [0xB607]) = .ok poked := rfl
  have hcompleted : poked.processor.step poked.bus =
      .ok (.ok comparedReport, comparedProcessor, comparedMemory) :=
    Processor.stepFrom_of_completed 0 hadvance
  have hstep : poked.stepOnce = .ok stepped := by
    rw [Run.stepOnce, hcompleted]
    rfl
  have hact : poked.act (.step 1) = .ok stepped :=
    Run.steps_succ_of_stepOnce hstep rfl
  rw [Run.statements_cons_of_act hpoke rfl, Run.statements_cons_of_act hact rfl]
  rfl

theorem runTrace_compared {source : String} {a : Address} {x y z : Span}
    (h : Script.parse source =
      .ok [⟨x, .poke 0 [0xB607]⟩, ⟨y, .step 1⟩, ⟨z, .poke a [0xFFFF]⟩]) :
    runTrace 0 "script.txt" (.ok source.toUTF8) 4 =
      { output := lines
          (timingLines (comparedRun a) ++ [(comparedRun a).processor.registers.display]) } := by
  rw [runTrace_toUTF8, runSource, h]
  dsimp only
  rw [show Script.Run.statements _
    { processor := .ofTable .standard, bus := scriptMemory 4 } = _ from statements_compared a x y z]
  rfl

theorem text_comparedLine : comparedLine.text = "CMP.B D7,D3" := by
  decide +kernel

/-! ## The lines about the instructions -/

/-- The lines about a script that has run to its end are about its instructions, one each. -/
theorem timingLines_of_exit {verbosity : Nat} {path : String}
    {contents : Except FileError ByteArray} {bits : UInt32}
    (h : (runTrace verbosity path contents bits).exit = 0) :
    ∃ bytes source list final, contents = .ok bytes ∧ String.fromUTF8? bytes = some source ∧
      Script.parse source = .ok list ∧
      Script.Run.statements list (freshRun bits) = .ok final ∧
      (runTrace verbosity path contents bits).output =
        lines (timingLines final ++ [final.processor.registers.display]) ∧
      (timingLines final).length = instructions list ∧
      ∀ before s after count, list = before ++ s :: after → s.action = .step count →
        ∀ k < count.toNat, ∃ r last report line,
          Script.Run.statements before (freshRun bits) = .ok r ∧ r.steps k = .ok last ∧
          last.Moment .standard report line ∧
          (timingLines final)[instructions before + k]? = some (timingText report
            (Table.standard.disassemble (Bus.peekWord final.bus) report.address)) ∧
          ((∀ n, 2 * n < line.size.toNat →
              Bus.peekWord last.bus (report.address + 2 * UInt32.ofNat n) =
                Bus.peekWord final.bus (report.address + 2 * UInt32.ofNat n)) →
            (timingLines final)[instructions before + k]? = some (timingText report line)) := by
  obtain ⟨bytes, source, hcontents, hsource, htrace⟩ := runTrace_of_exit h
  rw [htrace] at h ⊢
  obtain ⟨list, final, hparse, hrun, hstopped, houtput⟩ := runSource_of_exit h
  obtain ⟨hfinal, more, hmore, hlength, hmoments⟩ :=
    (ready_freshRun bits).statements rfl hrun hstopped
  have hexecutions : final.executions = more := hmore
  refine ⟨bytes, source, list, final, hcontents, hsource, hparse, hrun, houtput, ?_, ?_⟩
  · rw [timingLines, List.length_map, Run.reports_eq, List.length_map, hexecutions, hlength]
  · intro before s after count hlist haction k hk
    obtain ⟨r, last, report, line, hr, hlast, hmoment, hget⟩ :=
      hmoments before s after count hlist haction k hk
    rw [← hexecutions] at hget
    have hprinted := getElem?_timingLines hfinal hget
    refine ⟨r, last, report, line, hr, hlast, hmoment, hprinted, fun hwords => ?_⟩
    -- a listing depends on the words of its own line alone
    rw [hmoment.listed] at hwords ⊢
    rw [hprinted, Table.disassemble_congr hwords]

/-- A word stored elsewhere leaves the line about an instruction as it stood. -/
theorem timingLines_of_exit_storedElsewhere :
    (runTrace 0 "script.txt" (.ok "mem 0 = $b607\nstep\nmem 4 = $ffff\n".toUTF8) 4).exit = 0 ∧
      ∃ report line, line.text = "CMP.B D7,D3" ∧
        (timingLines (comparedRun 4)).length = 1 ∧
        (timingLines (comparedRun 4))[0]? = some (timingText report line) := by
  have hparse : Script.parse "mem 0 = $b607\nstep\nmem 4 = $ffff\n" =
      .ok [⟨⟨0, 13, by omega⟩, .poke 0 [0xB607]⟩, ⟨⟨14, 18, by omega⟩, .step 1⟩,
        ⟨⟨19, 32, by omega⟩, .poke 4 [0xFFFF]⟩] := by
    decide +kernel
  have hexit : (runTrace 0 "script.txt"
      (.ok "mem 0 = $b607\nstep\nmem 4 = $ffff\n".toUTF8) 4).exit = 0 := by
    rw [runTrace_compared hparse]
  obtain ⟨bytes, source, list, final, hbytes, hsource, hlist, hfinal, -, hlength, hmoments⟩ :=
    timingLines_of_exit hexit
  cases hbytes
  cases hsource
  cases hparse.symm.trans hlist
  cases (statements_compared 4 _ _ _).symm.trans hfinal
  obtain ⟨r, last, report, line, hr, hlast, hmoment, -, hline⟩ :=
    hmoments [_] _ [_] 1 rfl rfl 0 (by decide)
  cases hr
  cases hlast
  have haddress : report.address = 0 := hmoment.address
  have hlisted : line = comparedLine := by
    rw [hmoment.listed, haddress]
    rfl
  refine ⟨hexit, report, line, ?_, hlength, hline fun n hn => ?_⟩
  · rw [hlisted, text_comparedLine]
  · have hsize : line.size.toNat = 2 := by
      rw [hlisted]
      decide +kernel
    obtain rfl : n = 0 := by omega
    rw [haddress]
    decide +kernel

/-- A word stored over an instruction that has run is what the line about it lists. -/
theorem timingLines_storedOver :
    runTrace 0 "script.txt" (.ok "mem 0 = $b607\nstep\nmem 0 = $ffff\n".toUTF8) 4 =
        { output := lines
            [timingText comparedReport (dataLine 0 0xFFFF), comparedProcessor.registers.display] } ∧
      (∃ list, Script.parse "mem 0 = $b607\nstep\nmem 0 = $ffff\n" = .ok list ∧
        Script.Run.statements list (freshRun 4) = .ok (comparedRun 0)) ∧
      (comparedRun 0).executions = [(comparedReport, comparedLine)] ∧
      comparedLine.text = "CMP.B D7,D3" ∧
      timingLines (comparedRun 0) = [timingText comparedReport (dataLine 0 0xFFFF)] ∧
      timingText comparedReport comparedLine ∉ timingLines (comparedRun 0) := by
  have hparse : Script.parse "mem 0 = $b607\nstep\nmem 0 = $ffff\n" =
      .ok [⟨⟨0, 13, by omega⟩, .poke 0 [0xB607]⟩, ⟨⟨14, 18, by omega⟩, .step 1⟩,
        ⟨⟨19, 32, by omega⟩, .poke 0 [0xFFFF]⟩] := by
    decide +kernel
  have hlines : timingLines (comparedRun 0) = [timingText comparedReport (dataLine 0 0xFFFF)] := by
    decide +kernel
  refine ⟨?_, ⟨_, hparse, statements_compared 0 _ _ _⟩, rfl, text_comparedLine, hlines, ?_⟩
  · rw [runTrace_compared hparse, hlines]
    rfl
  · rw [hlines]
    decide +kernel

end Compare68k.Cli
