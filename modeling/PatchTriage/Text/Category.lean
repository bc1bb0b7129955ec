import PatchTriage.Text.Stretch

/-!
# General categories

The general category of every character, as of Unicode 14 (`Category`). Surrogates are no
characters, so that they have none. Other sets of characters are given by categories and what they
differ in (`CharSet`).
-/

namespace PatchTriage.Text

inductive Category where
  | lu | ll | lt | lm | lo | mn | mc | me | nd | nl | no | pc | pd | ps | pe | pi | pf | po | sm
  | sc | sk | so | zs | zl | zp | cc | cf | co | cn
  deriving DecidableEq

namespace Category

def names : List (String × Category) :=
  [("Lu", .lu), ("Ll", .ll), ("Lt", .lt), ("Lm", .lm), ("Lo", .lo), ("Mn", .mn), ("Mc", .mc),
    ("Me", .me), ("Nd", .nd), ("Nl", .nl), ("No", .no), ("Pc", .pc), ("Pd", .pd), ("Ps", .ps),
    ("Pe", .pe), ("Pi", .pi), ("Pf", .pf), ("Po", .po), ("Sm", .sm), ("Sc", .sc), ("Sk", .sk),
    ("So", .so), ("Zs", .zs), ("Zl", .zl), ("Zp", .zp), ("Cc", .cc), ("Cf", .cf), ("Co", .co),
    ("Cn", .cn)]

/-- The table of the characters of a category, but for codes that are not assigned. -/
def table : Category → String
  | .lu => "CnzDywcgBi-Ccd-od-Bub-eebcacbccddcbccebcbc-ebacadacbcccacbeaiadadad-od-qdadaccc-Ceibcbda
    cdc-gLeacaeajahacccacbcqciBkadce-wgadacbdByBx-Bgk-Ccb-md-DqdBlEHeBlcagaBBvDhDGtBqdcMj-Fsk-Dskhjf
    lhjhjfm-gjhCvdndndnemdKdafaecdcdaeeh-gbcddlbgaCkaDZhBvBxaccd-gbccadajcc-DsjacafaBTYk-Bsu-BaFg-me
    -Cil-eb-ifacadacae-ubdcec-obccahagacaBdaBHAizBVaBnFhBjGbkcocgcbCQdByENmBfBGJxBfBMMrzBbzBbzBbacbd
    adbddchBbzBbbcddhcgBcbcdcecaegBczBbzBbzBbzBbzBbzBfyBiyBiyBiyBiyBiaGNmBh"
  | .ll => "DtzChaBqxchc-Ccb-qb-Bud-ebbdacadaebfadaecdad-edacbcadaeacadbdchadad-qb-sbadacae-Cgbfdadb
    caf-ibCpcBaHmacaeaectaBcBicbecc-wbdcadadbCaBvc-Bgk-Cad-mb-DsBxBoEHcBqdcBDhfDFviEqBrCmmcBhDz-Fsbh
    c-DsbhjflhjhjflhjhjndhjhjhjecbhaeccbjddbjhlccbKpaebeaBcafafadbjdfaCcaEBcBvcaebc-efacbcfg-Dubaiac
    afanBlcagaBTWe-Bsu-BaFg-mbbc-Ckbgcacad-ifacadaccc-sgag-ofacah-iBdaeaBFqBqgiiDbBEAjgneBPazBViBnFh
    BjGakcocgcbCRcByEMgBfBGJxBfBMMlzBbgcrBbzBbdcacgckBbzBbzBbzBbzBbzBbzBbzBbzBbBbBdycfBbycfBbycfBbyc
    fBbycfcaCSzjctDUqBh"
  | .lt => "RladadaBnaLFihjhjhnaqaBwa"
  | .lm => "BAmrflpeiacaFeagaSlaIxaGjbKkbfaBgakaeaGfaGmaBVpaEyaVuaCPnaEeaXoaRxfGtCkoaBjBkBAoaoarmEMy
    bJiaHkaScaBsegaDubDqcBQBvaBWdfKlaElaBdbEsiDdayaEccebScaxaFiaEfawbEadkaBFVjaBubCZpfcBpciBLRydBQmm
    CnbcaYGrdcgcbSQrgDBia"
  | .lo => "GoaqaJxafdIbaBFwBafdBuBfcjBkbcDucazblcdaracBdBeDkmazBgwvBryikgxcfsBoCiCbeataijrofhdbdvcg
    caedearaobccpblajffbdvcgcbcbcbBgdcaucricccvcgcbceeataqbyamhdbdvcgcbceeaBfbccqasacfeccdebcacbebec
    elxaCbhcccwcpeaBbcdadbBfafhcccwcjceeaBgbcbqbsicccBodaragcjczfgrexcicadgChBvcbnfCibcacecxcacjcbka
    deydBhaCmhcBjBceEmBqvarffdeaebicfmnaEkMqcddgcacddBocddBgcddgcacddocCecddCoBmpEkXvdqczgCwhhirospr
    pmccqBzBpaCqBicCaiedBhcagCrlBeByBddemBrfzCdwkCaGvBushCdBdoblBrBbBjBqclBdEkdcfcbeaBPrdENwCdzwkgcg
    cgcgcgcgcgcgVgaCcafDhjacDlfagBqcDpsBfBxpTtJTnCnBFCecBRyCqBnjKhfplbCpaByCrGoaEaaegcccdcwBeBzpBxCl
    feacbmBblwBaBciBuBuedilecBoycchvpcfeaeBxcaebdedacazbekiapfdfdfkgcgFqBiBeQNrnwfBwMNdObdEbCqacjcmc
    ecacbcbcEdBiNytCldCbBplEnecFeEcjcBsdBeefdfdfdcBklczcscbcodnBjEsPaBceBwBwBfotchhBllBddBjfhEzCzDvB
    njBzGbLykvlhFxfdacBrcbeadwlwkBeCoscblvlzCtCdhbCnaqdcccBcBrBceBcBkhcBbBcCblvlsorEhCuHcBjNlBphbDbB
    clajvBrrBvuBcwnCaCgbdaoBsBhyBbBjBeadajBieanBvpdwacaBkrcyDhgcacdcocjiBuBnhdbdvcgcbceeataneGdCatdv
    cBfBvvbcaHdBuBqdBlBvvaCiBqoaCuBaBmgHeBrIehdadhcbcxqacaDrhdBmracaBdalBniawamBtuatCuKeicBksaByBdEj
    gcbcBlwaBafcbcBfpaMqsHiaDcBJlIxHnDXlDsqBPeFZuWkMUcVwiBesDasBdtBvCaugsBHxCwgaGuJBzjBVpBriNGiLeBuc
    sdjPfDKvEcgmeiijNBdaTiBsBiaMkBdtBrBWvgcdcbcocHoBZodcBacbcadacjcdcacahaf-gbbcbcad-kbacaddcgcdcdca
    cjcqgccecqGObCLFbBhGDsiIndINppLBkEPkUvCFzHHy"
  | .mn => "BDoEhKqeKgBscacbcbcaCvkBxuraDygdfdbcdBkaBfBaDokChikazdciccceBscCjhBrxcBfCeacafhfaeglbBea
    ChafdjavbBbadbCgafbfbdceaBfbeambCgafecbfavbxfcaChadacdjaibmbBfaCkanaBzaeaCeaccgccdibmbBeaChadaha
    gbvbBdbCgbfdjavbBeaCvaiccaDnadgnhDvadimfCxbBc-eCencecbgkcBjkaDzdcfcbdbBabfcrdoadbhaqaBBccBKlcBeb
    BfbBfbCnbcgjadkkaBuccaEobBjaEpcfbkahcImbdaChacgcacadhhjdaBxncpBydBxacecagaBpinbBhddbccCfacbeaccC
    hhdbFxccmcgfahaebHrClBBtmfaelEOdcFmaDtBfVjdEebBSQfafjBhbDdbKnaeafaBabgaFwbBbroaBnhBakBvcBxadddbB
    oaCqfdbdbnajaBwaCaaccdbgbcaBrbjaJfadafaBDZtaBCkprpBLmaItaFueCMhccbgdBpcfaGkbWcdOybFykBydEuaCdoBq
    adblcByddbiaCkcBlechClanbCbilddaDscdacbhaGfaehwbCgbeaBmgeeHohdccayaDhfcafbcbJfdhbcbBcbDihdacbEda
    cadfcaDycddceKaicbJxbcafaFpddbfaBhjBpfddjakfdcBvmcbPrgcfcaDfvdgcbcbEtfeacbcgcaCvbeacaNkbBCUeeCig
    BOjaCmdDeaBDBlbGZaBtdwUzcshdgBfdFtcCYeCcfBxjapaxecoCAjgcqdgcbceKcgOmaCkdCFxgEggBTCIwJf"
  | .mc => "DKtaCeadcjdcbBzbChchbdblaBsaChcCpaChcjacbCcbChacahbdblaDzbcbeccclaBqcCkdCkbChacedbcbkbBs
    bChcgccclaBrbCychhtbMtbCmaGqbfahadbBablcdgwbdfdalcCLtaBfaFaaihcbNjddcfbcfIrbChacakacbjfFqaBxagac
    ecbCkaBfafbdaCjadccaebBxhjbGqawaHHfbBTLcbdaDlbBzpFnbBwaBxbfbdcEhbdbzaBuacaEgadbgaJebcbcbcaBLXkac
    aEyaBucfbEmazbCiaBxckboaDqcebcaGpcBgbChbcddbdckalbIccjbeaEdchacddaJechddaEkcjbcaEgacbhaEcbfaKcck
    aJofcbfadacaFncjdfaDhaBebClaPsapaEdaiadaIgefbcaNnbBELfCcEbbBKXobhf"
  | .me => "BSqbIKraCIhdccBYOyc"
  | .nd => "BwjCIpjFfjHrjPxjEpjEpjEpjEpjEpjEpjEpjEpjEpjDtjEpjCtjKtjCtjCTrjBnjLpjEzjGljhjHbjDjjFfjhjC
    AEpjBAdjBnjHrjxjDjjPrjBFMdjCCljDFzjBFhjEzjCjjFpjKtjNfjEpjOljDzjDzjQhjDzjBDfjJnjCtjBDBjjDjjFfjBPB
    xBxDNdjQhjCKljHBbj"
  | .nl => "IRucDYuBiddFMtaBaipcBSYmjBIFhCaRtajaFfeMEtEg"
  | .no => "GwbgadcDMsfOnfErcFegIkgsiQsjBPmtBRwjSnaCMwaefhjHrpBqaBBzChDbvYhBdCBiaBTddFjjBfhcoBhjBooB
    SMjfBHQoBsCodsbNeBaBldBZhhBagBoiCyexfGfbdpdBtCniCbbBfcCyeEbhzhBqgMtfNpBeGdjBrdEjgFftOqtBZybQpiBH
    osBGuuBCPrgBEtwBLZmtEfyIBviBJuCgcccdCzBscoBLbm"
  | .pc => "DraMBwbuaDGApbzcJga"
  | .pd => "BtaCAvaCaaFKkaBNqaDBefFHyadaBgbfaBdaRfauaEiaCZWbbBmalaGoaFXwa"
  | .ps => "BoaBzaBgaFPfacaCUpaDPnaeaBnaCeaqaYlacaBfaBPv-mDdaBh-iPp-uCnacaBiaBOw-gBaat-gQn-ie-gdaCZR
    uaIiaBe-oeas-eGpaBzaBgaeada"
  | .pe => "BpaCaaBgaFPeacaCUpaDReaCeaqaYlacaBfaBPv-mDdaBh-iPp-uCnacaBiaBOw-gBt-gQn-ie-gdbCZRraIkaBe
    -oeas-eGpaCaaBgadada"
  | .pi => "GpaLXladbdaBaaFFtacafadaqaea"
  | .pf => "HfaLWwaeaBdaFFtacafadaqaea"
  | .po => "Bhcccd-ebalbebBcaCragapbiaBBbajaRzfBqaCdadadaBtbvbcboaccCxdDzaBsnJacCdoBgaKcblaFlaEraEsa
    PbanaOeaDnalbGnocaEjaCxefbEifGqaXpiBDuaEvcCubGccccBmfcdMcbIjbEzgcfGrgBdbEwdCieClbCnhmaBGdbjhjidd
    dcekcacjEUddcbEjaFobfcdadicbcadblecjddcacmdcQncCgaHiaBRYhbKkcDwalaEmfOrdDjbBpccaBybBwaDumrbEvdEx
    brbJqaBFCvgdaxavbddeccdichacbFucccd-ebalbebBcaBladbPvcZtaBxaPzaBCqaHsaBgaKniBnaEjgCpgDmdBKreBtdH
    igEgbcdExdBxbDcdfaoaccDlfEeaQcelbcaEbaJrwEccBdmCzaFbcJtaKfcGaaDphDgccePzeBrbYwbKdaBRteEJdbWDwbFe
    aCoejaBGtdMqaBDBpaLImeFPzb"
  | .sm => "BrarcCkacaBuafaBmaBgaBDnaUicJYiaoaBococFkaBoehaCregbfadadaiaBgbdacaBgKhBhbDnaBfyBpfScaka
    CdhEiaMzedBelpJxFaxCkfBfdJxBxudfDASraBFtaccGjarcCkacaFcahdDDJhaBaaBgaBaaBgaBaaBgaBaaBgaBaaIUfb"
  | .sc => "BkaEwdBWkaEuaTfbTfbiaJmaKeaWkaDQqaDIjBgBZHwaBGMmaEfaFzaImbebMCtdCVXfaDRla"
  | .sk => "DqacaCuahafaeaUcdnnggcacqEoapbBXjaIUnaccmcococobGHpbBSVswkbEabBLpapbBEKlqBIiacaGhaDOLke"
  | .so => "GkadafacaBLqaKhbEybHzalaubJoaTwaOkaFbfcaFdaIaaBqaPccqaccdfv-eFehcfcbgdHqbBCzjBBwaBBvaGcB
    hNqjkiCCibcdcblacbhfc-efambpacbcaChbkeddcbcbcgcBedbcacBeKjhftdgdDccBdBaBnhCqBakDeCzxHacicCbjEgcJ
    nBtBrCnJvTtBvwbhBmdBfcEaIwfNubBvzcDknIfBbljaobnawbhbMzbfjBhBjBdBemBdjaqBflBmqMhJTpClBGUjCcBHidlb
    caWccBFJbpEyaBucSraeafbobMciCgqdccmeaBwBsCLvbWuaEStaDGohfqBCNjdgaBEUxaHCeElCjJllBmdChgcxbiBdfCiw
    CneaHfDiBTyTrCedBzhcncbCOvaEHxaFaaBBuBrfDvnodococBkyGeCfBcoBrfiibpfFzJqgBBzgpemeElnDkilfaqlfCdjj
    hBnjBddbDbNbnndeeeegkBcekgfljhhjgkFqcCc"
  | .zs => "BgaEyaIHkaDPokBlaBwaFXxa"
  | .zl => "MEqa"
  | .zp => "MEra"
  | .cc => "aBfDsBg"
  | .cf => "GraCAlfxaHlaByaOvbDdaFTkaDAreBbeByecjDGHkaJqcGJaaqaNKliBZRcdHWyhBTKZnaBfDr"
  | .co => "DGVoJMdCAHXpDSYndDSYn"
  | .cn => ""

def stretches (k : Category) : List Stretch := readStretches k.table

/-- Whether a character has a category. A code that has no other one is not assigned. -/
def holds (k : Category) (c : Char) : Bool :=
  if k = .cn then names.all fun (_, k) => !inStretches c k.stretches
  else inStretches c k.stretches

end Category

/-- A set of characters: those of some categories, with others added and some removed. -/
structure CharSet where
  categories : List Category := []
  added : List Stretch := []
  removed : List Stretch := []

def CharSet.ofTexts (categories added removed : String) : CharSet :=
  let names := (splitOn ' ' categories.toList).map String.ofList
  { categories := names.filterMap fun n => Category.names.lookup n
    added := readStretches added, removed := readStretches removed }

def CharSet.holds (s : CharSet) (c : Char) : Bool :=
  (inStretches c s.added || s.categories.any fun k => k.holds c) && !inStretches c s.removed

/-!
## Word characters and digits

The characters that words are made of (alphabetic characters, marks, decimal digits, connectors
and the joiners), and the decimal digits of all scripts, as of Unicode 16.
-/

def wordChars : CharSet :=
  .ofTexts "Lu Ll Lt Lm Lo Mn Mc Me Nd Nl Pc"
    "DGpaBQyaShaFFfbBIobBTxBzBXOscncBJOmBzCTxBleecwMfcCedBGacMhjcadacBlcjcadacdchobBCwtBVxBgqjBDvqcB
  oeeokHXdarvlFXqKZuCfEOlBsejLYkaNSlaBjaKLvjGWyfKcCjBiaBPxBpIhBqEGkzhzhzCWWmaTZbXxNZvGFf"
    ""

def scriptDigits : CharSet := .ofTexts "Nd" "DXZcjDPvtBXtjBGxjYYhjEQhjBKDzjJBzjJoj" ""

def isWordChar (c : Char) : Bool := wordChars.holds c

def isScriptDigit (c : Char) : Bool := scriptDigits.holds c

end PatchTriage.Text
