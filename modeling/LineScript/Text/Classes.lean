import LineScript.Text.Ranges

/-!
# Classes of characters

The classes that the language asks about: white space, letters, the three kinds of digit, word
characters, printable characters, and the characters of names. Each class is settled by comparison for
the first 128 characters and by a table of the character standard (version 14) beyond them.
-/

namespace LineScript.Text

/-- Letters beyond the first 128 characters. -/
def letters : RangeSet := RangeSet.ofLines
  ["GoalafagwcBecRpflpeiacaFaecbddcahacccactcDecFijGjcBldahBoCuBafdBuBqBkbcDucaqbiblcdaracBdBeDkmazBgkbfagvfakaeayyikg",
   "xcfsBpChCbeataijqpfhdbdvcgcaedearaobccpblajffbdvcgcbcbcbBgdcaucricccvcgcbceeataqbyamhdbdvcgcbceeaBfbccqasacfeccdeb",
   "cacbebecelxaCbhcccwcpeaBbcdadbBfafhcccwcjceeaBgbcbqbsicccBodaragcjczfgrexcicadgChBvcbngChbcacecxcacjcbkadecawdBhaC",
   "mhcBjBceEmBqvarffdeaebicfmnasBlcagadBqcMucddgcacddBocddBgcddgcacddocCecddCoBmprDhdfeXvdqczgCwhhirosprpmccqBzBkafaC",
   "qDkiedBhcagCrlBeByBddemBrfzCdwkCaDfaDqBushCdBdoblBrBbBjBqclBjdiiBqdcBqdcfcbeagHjCnKrdfdBldfdhcacacacBedCacgcaeccge",
   "ddffmgccgEnaoarmDyafadjcaeehacacacdckddgefaCbbDZgIuhdebnBlcagadCdiarwkgcgcgcgcgcgcgcgDdaScbBregbfDhhccDlcdgBqcDpsB",
   "fBxpTtJTnCnBGUeCqBtdKieplbvBurBedCrByidDydClgbcacezpcccdcwBeBzpBxClfeacbmBblwBaBciBuBdarecjlecBoycchvweaeBxcaebded",
   "acazcdkicnfdfdfkgcgcBqcnhEkBeQNrnwfBwMNdObdEbBngnegacjcmcecacbcbcEdBiNytCldCbBplEnecFeBlzhzmDkefdfdfdcBklczcscbcod",
   "nBjEsPaBceBwBwBfotchhBllBddBjfhBxGbtBjfBjfBnjBznkcocgcbckcocgcbCqLykvlhzfcBpciCsfdacBrcbeadwlwkBeCoscblvlzCtCdhbCn",
   "aqdcccBcBrBceBcBkhcBbBcCblvlsorEhCuCeByoByoBjNlBphbDbBclajvBrrBvuBcwnCaCgbdaoBsBhyBbBjBeadajBieanBvpdwacaBkrcyDhgc",
   "acdcocjiBuBnhdbdvcgcbceeataneGdCatdvcBfBvvbcaHdBuBqdBlBvvaCiBqoaCuBaBmgHeBrEnClBghdadhcbcxqacaDrhdBmracaBdalBniawa",
   "mBtuatCuKeicBksaByBdEjgcbcBlwaBafcbcBfpaMqsHiaDcBJlIxHnDXlDsqBPeFZuWkMUcVwiBesDasBdtBvrdBgugsBAnClEzCwgaCpmCnbcaBd",
   "JBzjBVpBriNFsdcgcbcLeBucsdjPfDKvEcgmeiijIWlDgcCscbdadbddclcacgcCmcddhcgcBbcdcecaegcNbdycycBecycBecycBecycBecychCSz",
   "BeSoBslgraMkBdtBrBWvgcdcbcocHoCiCpiaBUjdcBacbcadacjcdcacahafacacacccbcadacacacacacbcaddcgcdcdcacjcqgccecqGObCLFbBh",
   "GDsiIndINppLBkEPkUvCFzHHy"]

/-- Decimal digits beyond the first 128 characters, in runs of ten from zero. -/
def decimals : RangeSet := RangeSet.ofLines
  ["CKujFfjHrjPxjEpjEpjEpjEpjEpjEpjEpjEpjEpjDtjEpjCtjKtjCtjCTrjBnjLpjEzjGljhjHbjDjjFfjhjCAEpjBAdjBnjHrjxjDjjPrjBFMdjCC",
   "ljDFzjBFhjEzjCjjFpjKtjNfjEpjOljDzjDzjQhjDzjBDfjJnjCtjBDBjjDjjFfjBPBxBxDNdjQhjCKljHBbj"]

/-- Digits that no decimal numeral is written with: superscripts, circled digits and the like. -/
def superscripts : RangeSet := RangeSet.ofLines
  ["GwbgaHCaiCLdaCMwaefhjBLvimimiDmalicaYhiciciDHVydBOniSwiDHByk"]

/-- Numerals that are not digits: fractions, Roman and Han numerals. -/
def numerals : RangeSet := RangeSet.ofLines
  ["HgcDMsfOnfErcFegIkgsiQsjBPvkBHycJwjDNzBydeBCikkkkkDcjkaYrakakaCBiaBDyaBaipcNgdFjjBfhcoBhjBooMoaEwaBJzaBExaHCdadaea",
   "caDgaBvaiacaBpbBfajaBlaDvaPoaCoaBjacacaSaacchaEndBElaUoaiaCCfaFcbnccaBMsaDaaBSoaCSyaBSyaBCqaDUuaBJyaDFuafaEvaDKbaB",
   "lagaBsaEwaGAyjMjfBETqaiafaCgaBfacaBqaCRiBsnCesbNeBaBldBeajaFfeBSlhBagBoiCyexfGfbdpdBtCreCbbBfcCyeEbhzhBqgMtfNyvGdj",
   "BrdEjgFokOqtBZybQpiBHosBGuuBPcEgBAWjgBEtwBLZmtEfyIBviBJuCgcccdCzBscoBLmbFRhaDvaEwaClaDBdaDlajaqaMwataBcaJGxaCHkaGQ",
   "laOXeaCEWha"]

def blanks : RangeSet := RangeSet.ofLines
  ["FdaBbaIHkaDPokBebgaBwaFXxa"]

/-- Characters beyond the first 128 that are written by their code point. -/
def unprintables : RangeSet := RangeSet.ofLines
  ["EyBgnaBBnbhdiacavaPiaBnbBzbeaCehBcdhqxaHlaBxbCibDynCibBybqaBdbcameBgiCxaGgajbdbxaiaccfbkbdbfhcddagbBabeahddbxaiada",
   "dadbcagddbeccgfacgsjeakaeaxaiadagblaeaebcofbngiaeajbdbxaiadagbkbdbegeddagbtjdahceafcdacadcdcecndgceafbcfcnweoaeaya",
   "rbkaeafgdaebcbfblgxaeayalagbkaeafgdfdafbladmoaeaCaaeahdrbBbaeatczakacbiccdhacajflbelChdBeBkdacagazacaybgacahblbfBf",
   "CvaBldBoaBlaqaoBkHracecbOoafbiacafbBqafbBiafbiacafbqaCgafbCqbBhcBbfDjbhbYraBdcDmgxizivloaeadlDrblflfpamfDmgBseCtjB",
   "gandndccBrbgkBtdBbfmcClbCoaBebmflfpbBgBwDacBwaEnhCjcqcCjgBsbmhBseUpbhbBnbhbjacacacaBgbCcaqapbhaubeakqzhBwqdbBcaocB",
   "ioBioFldZoymuCRtbBhaNmeBuacecbCfgdnziiaiaiaiaiaiaiaiaExBhBbaDmlIhzneCmaDjbEaeBsaDraDhlBwaBRIscCeiNltHdhHwedacagxCi",
   "clfCfhCthnfEnkBfcDbamdBiaCeipblbEaxBdjhbhbhiiaiaCjdExblfQNtlydBydDAvJMdOdbEdBlilgeBbagacadadaEwpRebCdgcBfBrfCaauaf",
   "dgaFgdHjchbhbhbeciaimdbnaBbauadaqbpBhEueedBucDlaoccBuBvEzBecByoBddBliBfeBseBfaBmdpBpGdblfBldBldBphCbknaqaiadamaqai",
   "adCoMaixjjxhaBrakCqhbcaBtadccbyaCvhkBvuadeBicBcecClCfdvbBzadejaeaBebedlgkgCnBfBodniCdcBebBceBbgfliDbCwCcCamCagBvhl",
   "LhBgaBraebdCzBphBrvBbBlBdtyiDbdBliClagmBaglfCcathBoiDtavktaBtCmiacafaqamfCielffajbdbxaiadagalbdbebcfceibicgFiDpagB",
   "dCvhlGjCdbBnBhCsklfosChflCbBcbqdyHcCjDvDgljbcbjadaBfadbnilCrjbBvbmBaCvhDgmCwKckaBuapjBecBhbxapCuiadaBtccadakhlfhad",
   "aBmadahglLxBaHacoBzmBJoDxEiagkHpDXjDwmBPgFZsWmMUaVygBgaldDealfBfbhjCtjlaiaweuBAlDoDwCydCggsClgkdnJCbhBVrBpkNFqfaia",
   "daLgBseqfhPhDKtEeeockglbfGYxBvbyiEnChJnjBobCxhEjuCtFxvlDkiBaFeDiaCuadbcbdbfanacaiaCoafbjaiaBdafagacciaNdbLhbBBboga",
   "qBQlBgIqiasbiadagIeBucpblddMhBgqChecBVziafadaqaHqbrBoCzdlddBEeCrCxCkHlfaBcadacbcalafacacfcdcacacaeadacbcacacacacad",
   "acbfaiafafacalaseeagasBzdKjBtdDxlqbqaqaBmjGtCdBemBtdkgdnhFxBLxercocEnlDmgndcondCfhlfBphBfbdCzNdlpbgcgciiBecmehjlfj",
   "hiiFsaCeBklBNpCLFdBfGDugIpbINrnLBmEPiUxCFxHIaBOTMqJhLECt"]

/-- Characters other than letters that may start a name. -/
def nameStarters : RangeSet := RangeSet.ofLines
  ["IRucPpbDGkawaByBiddFMtaBaipcBSYmjBIFhCaRtajaFfeMEtEg"]

/-- Letters that may not start a name. -/
def letterNonStarters : RangeSet := RangeSet.ofLines
  ["BIgaEBpaEyaLYaaDACdfPrbEnacacacacacacacaLcb"]

/-- Characters that may follow in a name, other than those that may start one and digits. -/
def nameExtenders : RangeSet := RangeSet.ofLines
  ["HbaWnEhyaJseKgBscacbcbcaCvkBxuraDygdfdbcdBkaBfBaDokChikazdciccceBscCjhBrxcBgCdccrcglbBecCfacgdbdckalbBbadcCfacefbd",
   "ceaBfbeamcCfachccccvbxfccCfacgdbdciclbBfaCieeccdkaBpeCeacgcccdibmbBecCfacgcccdibmbBddCebcgcccdkalbBecCtaffcachtbCk",
   "achnhDvacjmfCxbBcacacafbBytcbgkcBjkaDxtydfcccdgedolcaldBBcckiBJtdBdcBebBfbCnBfkaBuccaFyaEplflGdaCjeCgjcBcdaBxncpBy",
   "eBwqBnincBfmCfnBxtFxccufahadcHrClWebuaEumfaelEOdcFmaDtBfVjfEcbBSQfafjBhbDdbKnaeafayefaDgbBzrBbroaBnhBamBtdBwnBlaCq",
   "nnajbBucBzaccdbgbcaBqegbJdhcbBDZtaBCkprpebzcJgaDrbXiaItaFueCMhccbgdBpcfaGkbWcdOybFykBydEtcCcoBqadbldBukiaCkcBlnrbB",
   "tancBxnjdcbDplhaGflwdCebcgdbdckalbdgeeHlryaDetJcgdiBcbDfqEdmDyoJxoJmfcbddcacbFmgdgeaBdjBpgcdjakkBvpPqhchDfvcnEtfea",
   "cbcgcaCpecbceNkdBCUceCigBOjacCcidDeambBDAybGZaBtdwUxeefjhdgBfdFtcCYeCcfBxjapaxecoCAjgcqdgcbceKcgOmaCkdCFxgEggBTCIw",
   "Jf"]

/-- White space: what trimming removes. -/
def isBlank (c : Char) : Bool :=
  if c.toNat < 128 then
    c.toNat = 32 || (9 ≤ c.toNat && c.toNat ≤ 13) || (28 ≤ c.toNat && c.toNat ≤ 31)
  else blanks.contains c

def isLetter (c : Char) : Bool :=
  if c.toNat < 128 then c.isAlpha else letters.contains c

/-- Digits of positional numerals in any script. -/
def isDecimal (c : Char) : Bool :=
  if c.toNat < 128 then c.isDigit else decimals.contains c

/-- Decimal digits and digits that stand alone, such as superscripts. -/
def isDigit (c : Char) : Bool :=
  if c.toNat < 128 then c.isDigit else decimals.contains c || superscripts.contains c

def isNumeral (c : Char) : Bool :=
  if c.toNat < 128 then c.isDigit
  else decimals.contains c || superscripts.contains c || numerals.contains c

def isAlnum (c : Char) : Bool := isLetter c || isNumeral c

/-- Word characters: letters, numerals and the underscore. -/
def isWord (c : Char) : Bool := c = '_' || isAlnum c

/-- Characters that a quoted text shows as they are. -/
def isPrintable (c : Char) : Bool :=
  if c.toNat < 128 then 32 ≤ c.toNat && c.toNat ≤ 126 else !unprintables.contains c

def isNameStart (c : Char) : Bool :=
  if c.toNat < 128 then c.isAlpha || c = '_'
  else nameStarters.contains c || (letters.contains c && !letterNonStarters.contains c)

def isNameChar (c : Char) : Bool :=
  if c.toNat < 128 then c.isAlphanum || c = '_'
  else isNameStart c || decimals.contains c || nameExtenders.contains c

/-- Value of a decimal digit of any script. -/
def decimalValue? (c : Char) : Option Nat :=
  if c.toNat < 128 then
    if c.isDigit then some (c.toNat - 48) else none
  else (decimals.find? fun r => r.1 ≤ c.toNat && c.toNat ≤ r.2).map fun r => (c.toNat - r.1) % 10

end LineScript.Text
