import LineScript.Text.Classes

/-!
# Capital and small letters

Case maps of the character standard (version 14), with the forms of several characters and the
final form of the Greek sigma. A word opens where the character before it has no case.
-/

namespace LineScript.Text

/-- Characters `first`, `first + step`, …, `last` map to the character `shift` further on. -/
structure CaseRun where
  first : Nat
  last : Nat
  step : Nat
  shift : Int

/-- Runs beyond `last`. Each is given by five numbers: the distance to its first character, the distance from there to its
last one, the step, and how far up or down it maps. -/
def CaseRun.beyond (last : Nat) : List Nat → List CaseRun
  | gap :: more :: step :: up :: down :: ns =>
    ⟨last + gap, last + gap + more, step, up - down⟩ :: beyond (last + gap + more) ns
  | _ => []

def CaseRun.ofLines (lines : List String) : List CaseRun := beyond 0 (numbersOf lines)

/-- The run that maps back. -/
def CaseRun.inverse (r : CaseRun) : CaseRun :=
  ⟨(r.first + r.shift).toNat, (r.last + r.shift).toNat, r.step, -r.shift⟩

/-- Expansions beyond `last`: a distance, how many characters the form has, and these. -/
def expansionsBeyond (last : Nat) : List Nat → List (Nat × List Char)
  | gap :: size :: ns =>
    (last + gap, (ns.take size).map Char.ofNat) :: expansionsBeyond (last + gap) (ns.drop size)
  | _ => []
termination_by ns => ns.length

def expansionsOfLines (lines : List String) : List (Nat × List Char) := expansionsBeyond 0 (numbersOf lines)

/-- Runs of characters whose capital lies at a fixed distance. -/
def upperRuns : List CaseRun := CaseRun.ofLines
  ["GzabBCpaBrwbaBgcgbaBgbabEracBucabcabaIycecabdocabdBscabdecabbabaLobabHnadccabdababeababgababdabDtaeababbabGhaeabFa",
   "adecabdababfababdababeccabdababeababcabCeagababbabaccababbabaccababbabaccocabbabaDbcqcabdababbabaccababeBmcabeqcab",
   "jababdbbPZzacababficabbabPYtababPYqababPYsababaIcbabaHycbbaHxcabaHucabaHvbabCKPraeabaHxbabCKPnacabaHzcabCKOeababCK",
   "PgacabaIbbabaIdbabCKPgababPXfababCKPdadabaIdcabPXlababaIfdabaIgiabPWpadabaIkcabCKPfababaIkeabCKOgababaIkbabaCrbbba",
   "IjbabaCtgabaIllabCKNlababCKNiaGlabDgaBsccabeababecbFaaBvabaBmbcbaBlcqbaBgbabaBfbibaBgbabaCmbbbaClcabaCkbabaCfeabaB",
   "vbabaCcbabaicwcabbabaDibabaDcbabhababaEmcabaDsdababdababCbBfbaBgbpbaDccBgcabkCacabdmcabbabapcDqcabByBlbaBwEHeBqbEL",
   "sadcbELsaBDhfbaiDFvabaJGobabaJGnbabaJGebbbaJGcbabaJGdbabaJFwbabaJDtbabCAEkaJhabCAGyaeabFQsarabCAIyaElFscabgabaChgD",
   "qcabbhbiajfbialhbiajhbiajfbiamgciajhbiajbbCwabdbDiabbbDwabbbEyabbbEiabbbEwaBzbbianabaKRdsbbiapbbiaeabhaNxabaBcBipb",
   "aqfababBGmzbaBaCTrBvbaBwcababeabaPZfbabaPZccecabhababdabablDucabjccabfababnBlbaKTkcabaKTkgabaKTkBTWeBscabuBacabFgm",
   "cabeCicablccabdicabfababfccabbabBwadscabmocabfccabhababgccabBdababBHdabaBJsBdDbbaCFMuBFQgzbaBgBViBnbaBoFhBjbaBoGak",
   "baBncobaBncgbaBncbbaBnCRcBybaCmEMgBfbaBgBGJxBfbaBgBULnBhbaBi"]

/-- Characters whose capital form has several characters. -/
def upperSpecials : List (Nat × List Char) := expansionsOfLines
  ["IpcDfDfEccBAyDaGlcCwBEaQadBJlBDwBDpBgdBJxBDwBDpSdcBZhCAkJMtcCuBFlbcDgBDwbcDjBDybcDlBDybcCnBBaHacBJxBEhcdBJxBEhBDoc",
   "dBJxBEhBDpcdBJxBEhBGcBqcLToBJlbcLTpBJlbcLTqBJlbcLTrBJlbcLTsBJlbcLTtBJlbcLTuBJlbcLTvBJlbcLToBJlbcLTpBJlbcLTqBJlbcLT",
   "rBJlbcLTsBJlbcLTtBJlbcLTuBJlbcLTvBJlbcLUuBJlbcLUvBJlbcLUwBJlbcLUxBJlbcLUyBJlbcLUzBJlbcLVaBJlbcLVbBJlbcLUuBJlbcLUvB",
   "JlbcLUwBJlbcLUxBJlbcLUyBJlbcLUzBJlbcLVaBJlbcLVbBJlbcLXgBJlbcLXhBJlbcLXiBJlbcLXjBJlbcLXkBJlbcLXlBJlbcLXmBJlbcLXnBJl",
   "bcLXgBJlbcLXhBJlbcLXiBJlbcLXjBJlbcLXkBJlbcLXlBJlbcLXmBJlbcLXnBJldcMAkBJlbcBJdBJlbcBIsBJlccBJdBGcbdBJdBGcBJlfcBJdBJ",
   "lgcMBaBJlbcBJjBJlbcBIvBJlccBJjBGcbdBJjBGcBJlfcBJjBJlgdBJlBDwBDobdBJlBDwBDpdcBJlBGcbdBJlBDwBGcldBJxBDwBDobdBJxBDwBD",
   "pbcBJtBEhccBJxBGcbdBJxBDwBGclcMCwBJlbcBKbBJlbcBJbBJlccBKbBGcbdBKbBGcBJlfcBKbBJlDEYmcCsCsbcCsCvbcCsCybdCsCsCvbdCsCs",
   "CybcDfDgbcDfDgncBZwBZybcBZwBZhbcBZwBZnbcCAgBZybcBZwBZp"]

/-- Runs of characters whose small form lies at a fixed distance: where capitals do not map back, and where they do. -/
def lowerRuns : List CaseRun := CaseRun.ofLines
  ["RkabcababbacabcababbacabcababbaBmabcababbaQhabBgadabBgahabBgaDdabaCiKCoabaLGxJahbaijhbaijhbainabajqabajBwabajLmaba",
   "LDdeabaMKlbabaMFuBYKtabba"] ++ upperRuns.map CaseRun.inverse

/-- Characters whose small form has several characters. -/
def lowerSpecials : List (Nat × List Char) := expansionsOfLines
  ["LscEbBDv"]

/-- Runs of characters that open a word in a form other than their capital. -/
def titleRuns : List CaseRun := CaseRun.ofLines
  ["RkabbababaabababbabbababaabababbabbababaabababBlabbababaabababFQjBqbaadcbaaFMvhbiabhbaabhbiabhbaabhbiabhbaaeabjaja",
   "baahabjajabaaBnabjajabaa"]

/-- Characters that open a word in a form of several characters other than their capital. -/
def titleSpecials : List (Nat × List Char) := expansionsOfLines
  ["IpcDfElBTwcBZhCCgJXrcMAkBGfccBIsBGfddBJdBGcBGflcMBaBGfccBIvBGfddBJjBGcBGfBrcMCwBGfccBJbBGfddBKbBGcBGfDEYrcCsDybcCs",
   "EbbcCsEebdCsDyEbbdCsDyEebcDfEmbcDfEmncBZwCBubcBZwCBdbcBZwCBjbcCAgCBubcBZwCBl"]

def casedRanges : RangeSet := RangeSet.ofLines
  ["CnzhzBwalafagwcBecHmcdfHzcBjibBfeDtaBrddbddcahacccactcDecFijGjcBlkBoEFgBlcagadBqdcZxDhdfDFviiBqdcCnHjCnKrdfdBldfdh",
   "cacacacBedCacgcaeccgeddffmgccgEnaoarmDyafadjcaeehacacacdcffaddgefasBfebBFmBzCRvIuhdebnBlcagaBTWdBttBdFdDxedcCggbca",
   "ceBcbccBFqBqcmiDbBEAjgneBNuzhzBTuDbDtBjfBjEnkcocgcbckcocgcbRkadccBpciBVaByoByELaClBGIrClBMLlDgcCscbdadbddclcacgcCm",
   "cddhcgcBbcdcecaegcNbdycycBecycBecycBecycBecychCSzjctDTiCpDAbzhzhz"]

/-- Characters that are passed over when looking for a neighbour with case. -/
def caselessRanges : RangeSet := RangeSet.ofLines
  ["BnahamaBkacaCuafacafadbTkHjfbfakbcaJsgIaagaByBscacbcbcaBtamflkcaBkaluraDyhcjcdBiacaBfBaDokChkfadazxBscBtaibhhBqCfC",
   "eacafhfaeglboaqaChafdjavbBbadbCgafbfbdceaBfbeambCgafecbfavbxfcaChadacdjaibmbBfaCkanaBzaeaCeaccgccdibmbBeaChadahagb",
   "vbBdbCgbfdjavbBeaCvaiccaDnadgmiDvadikacfCxbBcacacaCencecbgkcBjkaDzdcfcbdbBabfcrdoadbhaqaDraXlcBKlcBebBfbBfbCnbcgja",
   "dkeagaBueCaaCobBjaEpcfbkahcImbdaChacgcacadhhjdaBoajBeBydBxacecagaBpinbBhddbccCfacbeaccChhdbCnfDfccmcgfahaebBzCkoaB",
   "jDwReaccmcococobnejbladadeByecjcaoarmCaBgEJsbEkcEwaqaDtBfBwaScaBldeegaDqfDqcBQBvaBWdfKlaDvdcjcaBddDdbpBhDbaycEaceb",
   "jaeafaBabgaFwbBbroaBnhBakBvcBxadddbsawbCpfdbdbnajaBkamaCaaccdbgbcaBcapbgbcaDxekcEsadafaBDZtaFsqWcpeanpBjadaGoaiaha",
   "maBkacaBwaBubCqawcTuaItaFueBNqfcBpciWlccbgdBpcfaGkbWcdOybFykBydEuaCdoBqadblcByddbdafalaBzcBlechClanbCbilddaDscdacb",
   "haGfaehwbCgbeaBmgeeHohdccayaDhfcafbcbJfdhbcbBcbDihdacbEdacadfcaDycddceKaicbJxbcafaFpddbfaBhjBpfddjakfdcBvmcbPrgcfc",
   "aDfvdgcbcbEtfeacbcgcaCvbeacaNkbIBciUSueCigkdBNwaCmqCnbcbYGqdcgcbEUhbcdGYvBtdwUzckpdgBfdFtcCYeCcfBxjapaxecoCAjgcqdg",
   "cbceKcnOfaCkdCFxgEghEBgeBSXXqaBfDrEzJf"]

def shift? (runs : List CaseRun) (c : Char) : Option Char :=
  (runs.find? fun r => r.first ≤ c.toNat && c.toNat ≤ r.last && (c.toNat - r.first) % r.step = 0).map fun r =>
    Char.ofNat ((c.toNat : Int) + r.shift).toNat

def upperChar (c : Char) : List Char :=
  if c.toNat < 128 then [c.toUpper]
  else match upperSpecials.lookup c.toNat with
    | some form => form
    | none => [(shift? upperRuns c).getD c]

def lowerChar (c : Char) : List Char :=
  if c.toNat < 128 then [c.toLower]
  else match lowerSpecials.lookup c.toNat with
    | some form => form
    | none => [(shift? lowerRuns c).getD c]

def titleChar (c : Char) : List Char :=
  match titleSpecials.lookup c.toNat, shift? titleRuns c with
  | some form, _ => form
  | none, some d => [d]
  | none, none => upperChar c

def isCased (c : Char) : Bool := casedRanges.contains c

def isCaseless (c : Char) : Bool := caselessRanges.contains c

/-- A sigma is final after a character with case and before none, caseless marks passed over. -/
def sigmaIsFinal (before after : List Char) : Bool :=
  let neighbour (cs : List Char) : Bool := (cs.dropWhile isCaseless).head?.any isCased
  neighbour before && !neighbour after

/-- Small form of `c`, where `before` holds the characters to the left, nearest first. -/
def lowerAt (before : List Char) (c : Char) (after : List Char) : List Char :=
  if c = 'Σ' then [if sigmaIsFinal before after then 'ς' else 'σ'] else lowerChar c

def lowerFrom (before : List Char) : List Char → List Char
  | [] => []
  | c :: cs => lowerAt before c cs ++ lowerFrom (c :: before) cs

def lower (s : List Char) : List Char := lowerFrom [] s

def upper (s : List Char) : List Char := s.flatMap upperChar

/-- The first character in title form and the others small. -/
def capitalize : List Char → List Char
  | [] => []
  | c :: cs => titleChar c ++ lowerFrom [c] cs

def titleFrom (before : List Char) : List Char → List Char
  | [] => []
  | c :: cs =>
    (if before.head?.any isCased then lowerAt before c cs else titleChar c) ++ titleFrom (c :: before) cs

/-- Every word opens in title form and goes on in small letters. -/
def title (s : List Char) : List Char := titleFrom [] s

end LineScript.Text
