import PatchTriage.Shell.Locale

/-!
# Scripts and properties of characters

The scripts of characters, as of Unicode 14 (`Script.table`). A character of one script may be used
in others. Codes without a meaning are in the unknown script, characters of no script in the common
one.
-/

namespace PatchTriage.Shell.Tools.Backtrack

open Text

/-- The rows of a table: a dot ends a row, and colons stand between its fields. -/
def readRows (s : String) : List (List String) :=
  (splitOn '.' s.toList).dropLast.map fun row =>
    (splitOn ':' row).map fun field => String.ofList (trim field)

/-- A script: its names, and its own characters and those it shares. The stretches of characters may
go over codes that are not assigned. -/
structure Script where
  names : String
  own : String
  shared : String
  deriving DecidableEq

namespace Script

def unknown : Script := ⟨"unknown zzzz", "", ""⟩

def common : Script := ⟨"common zyyy", "", ""⟩

def table : List Script :=
  (readRows "
  adlam adlm:HDEuDr:CIhaBha.
  aghb caucasianalbanian:DUXsCl.
  ahom:EBRcCs.
  anatolianhieroglyphs hluw:ESSeWk.
  arab arabic:CHcecfcncccBfcjmzcEdcBhDdBvJhEjcBcDNTxSzdHjEjFkFVoBeDGQsJh:CHoapaeaBhalkBbaDPMcbCDlBb.
  armenian armn:BZdDqDOZke.
  armi imperialaramaic:DWBwBf.
  avestan avst:DXCyCl.
  bali balinese:KFwEw.
  bamu bamum:CLCqDjCVCrVw.
  bass bassavah:FHKiBl.
  batak batk:KNgCl.
  beng bengali:DPoEw:DNtbsbHJfacadbcajajadafadcCBAga.
  bhaiksuki bhks:EDOiEe.
  bopo bopomofo:BCsbRLyBqEjBf:SErcfjcmlddahaHoaCZTibKxe.
  brah brahmi:DZAeEx.
  brai braille:PDwJv.
  bugi buginese:JWaBf:CMHza.
  buhd buhid:IUyt:IUnb.
  cakm chakma:DZKaCt:DTmjCKfj.
  canadianaboriginal cans:HOyYpVpCrDTPrp.
  cari carian:DTYmBw.
  cham:CMJwDr.
  cher cherokee:HLgDpCFJfDb.
  chorasmian chrs:DYXcBb.
  copt coptic qaac:BMgnPJlEx:DUAyBb.
  cpmn cyprominoan:EKYyDu:DTImb.
  cprt cypriot:DVZkCl:DTImCl.
  cuneiform xsux:EFBsBZv.
  cyrillic cyrl:BNkFcdGmIVpiGhaCzaGFoBfBTObDrBHEdb:BSnbJQoaGEla.
  deseret dsrt:DUMaDb.
  deva devanagari:DKqDcfodzCIJhBf:DNtbsbHJfBmcbBNbaBZFsj.
  diak divesakuru:ECKuDl.
  dogr dogra:ECAyCh:DOmlCIDdj.
  dupl duployan:GMDsGd:GMJwd.
  egyp egyptianhieroglyphs:ELDgBPo.
  elba elbasan:DUVwBn.
  elym elymaic:DYYyw.
  ethi ethiopic:GVgPtJVbDqBVKdBtEPYgBe.
  geor georgian:GHsDmcdEJxBvGEbBt:GLfa.
  glag glagolitic:QRgDrGIZhBq:BSmadaPUyaBTNga.
  gong gunjalagondi:EEBwCv:DOmb.
  gonm masaramgondi:EDYeDl:DOmb.
  goth gothic:DUEaBa.
  gran grantha:EADsCfdCe:DNtbsbYrnGKbacbBfcebBNbaDNTraETxbca.
  greek grek:BHwdcicfcacDlppJNreBzefeDhaMjJuLkaCAJfaBGNjDasaDAXsCr:BGcadaKAtb.
  gujarati gujr:DZlEw:DNtbsbCIDnj.
  gurmukhi guru:DUnEn:DNtbsbCIDnj.
  han hani:RPwNdBwacaBaipdBLdJTnCnBFBjBHSjSfBSIjbnbCCOlEAGo:SErcdacjcmlddahafdHgaFtpBhBjCjBnCfBwqlCa
   aDlyleDtBeBROkhBHBabKxeDCHfrLRzb.
  hang hangul:GLkJvLLfbJyDpEkBeCoBeBTAoBcYuQRbPAjCi:SErcfjcmrahaHoaCZTibKxe.
  hanifirohingya rohg:DXWqCf:CHoapaeaBhaFsa.
  hano hanunoo:ITsu:IUnb.
  hatr hatran:DWIaBf.
  hebr hebrew:CCvDvDOVxBy.
  hira hiragana:SHdDhhcFPEwLaBxcYMwa:SErcfjcmrfcafbDodeaDnbCZThbKxelaBub.
  hmng pahawhhmong:FHMeFn.
  hmnp nyiakengpuachuehmong:HAEaDb.
  hung oldhungarian:DXRsEx.
  inherited qaai zinh:BDoEhKsbRlkBbaBCjdGOyBeTuccmcgfahaebHrClUfbHnBgFTydEebCZUkprnBLoaItaGFbaCTCvCs
   UzcshdgBfdBTLHjJf.
  inscriptionalpahlavi phli:DXGqBf.
  inscriptionalparthian prti:DXFkBf.
  ital olditalic:DUCeBv.
  java javanese:CMEyCzdp:CMHza.
  kaithi kthi:DZFcCz:DOojCIDdj.
  kali kayahli:CMAaBtca:CMBua.
  kana katakana:SKvDldcJhpIbBucDjCZHfjcBsCOUdqLccCod:SErcfjcmrfcafbDodeaDnbCZThbKxelaBub.
  kannada knda:ETcEk:DNtbsbHJfacaiayacaCASyf.
  khar kharoshthi:DWTcDk.
  khitansmallscript kits:FJIiaKGySb.
  khmer khmr:IXkErStBf.
  khoj khojki:DZTwCk:EDijCHOjj.
  khudawadi sind:EAAqCv:DOmbCIDnj.
  lana taitham:JXgFl.
  lao laoo:FMvDq.
  latin latn:CnzhzBwaqagwcBecRgBoeJXcBlhBwgdgmcCrCoJvOgaoarmFmbhaBcasBoECuBfBULnDxeEmBFlBqcicdBEDrgB
   OlzhzDCgCgDDNqBe:BHjmKsbBVfbCXlaFTsaHlaBYUahVfa.
  lepc lepcha:KPsDb.
  limb limbu:JMeDb:DOna.
  lina lineara:DVFsNv:DTItBs.
  linb linearb:DSYqJq:DTImCl.
  lisu:CKKuBvBUMba.
  lyci lycian:DTXgBc.
  lydi lydian:DWKmBf.
  mahajani mahj:DZNcBm:DOmlCIDdj.
  maka makasar:EEQqy.
  malayalam mlym:EYaEx:DNtbsbHJpaCATyc.
  mand mandaic:DDgBe:CJoa.
  mani manichaean:DXAmCc:CJoa.
  marc marchen:EDSqCs.
  medefaidrin medf:FISeDm.
  meeteimayek mtei:CMSmwHuCf.
  mend mendekikakui:HCUyIg.
  merc meroiticcursive:DWPkDr.
  mero meroitichieroglyphs:DWOeBf.
  miao plrd:FIZoGd.
  modi:EBHgDl:CLSaj.
  mong mongolian:JCibdacGiDSCcm:JCkbcaDCka.
  mro mroo:FHEuBv.
  mult multani:DZYuBp:DYkj.
  myanmar mymr:GBoGdCGAzBeDuBf:CMBua.
  nabataean nbat:DWEiBv.
  nand nandinagari:ECQyCq:DOmbBInjGBiajaiaCASsf.
  narb oldnortharabian:DWYaBf.
  newa:EANoDt.
  newtailue talu:JRcDr.
  nko nkoo:CYiCl:CHoapaeaDPPfb.
  nshu nushu:FJIfaYVnPf.
  ogam ogham:INoBc.
  olchiki olck:KSuBv.
  oldpermic perm:DUFgBq:BSla.
  oldpersian xpeo:DUIiCb.
  oldsogdian sogo:DYQiBn.
  oldsoutharabian sarb:DWWuBf.
  oldturkic orkh:DXMuCu.
  olduyghur ougr:DYUqz:CJoaDUSwa.
  oriya orya:EEjEo:DNtbsbHJpaya.
  osage osge:DUSuCx.
  osma osmanya:DUQyBp.
  palm palmyrene:DWDcBf.
  pauc paucinhau:EDCaCe.
  phag phagspa:CLSqCd:JCkbca.
  phlp psalterpahlavi:DXHwBv:CJoa.
  phnx phoenician:DWJgBf.
  rejang rjng:CMBwBv.
  runic runr:IOuCwek.
  samaritan samr:DAuCk.
  saur saurashtra:CLVcDl.
  sgnw signwriting:GWTkBAl.
  sharada shrd:DZOyDr:DNtaHKgacadbda.
  shavian shaw:DUPcBv.
  sidd siddham:EBCiDp.
  sinh sinhala:FCzElDULht:DOmb.
  sogd sogdian:DYSeBp:CJoa.
  sora sorasompeng:DZIeBp.
  soyo soyombo:ECXsDe.
  sund sundanese:KKuClJxh.
  sylo sylotinagri:CLQeBs:DOmbEzj.
  syrc syriac:CQyDbKnk:CHoapbdaBhalkBbaIXsaca.
  tagalog tglg:ISmBf:IUnb.
  tagb tagbanwa:IWet:IUnb.
  taile tale:JPgBk:GEaj.
  taiviet tavt:CMOuDr.
  takr takri:EBMeCv:DOmbCIDnj.
  tamil taml:EJiEqEALiCl:DNtbsbHJpaCBBlaBOEgacaCeb.
  tang tangut:FJIeaBgKFvTti.
  tangsa tnsa:FHGqDl.
  telu telugu:EOeEx:DNtbsbHJpaya.
  tfng tifinagh:RCyDb.
  thaa thaana:CVwBx:CHoapbdaCnjDPThala.
  thai:FHxCfgBb.
  tibetan tibt:FRsIefb.
  tirh tirhuta:EASmDl:DNtbsbHKnaCATaj.
  toto:HATkBe.
  ugar ugaritic:DUHcBf.
  vai vaii:CKMqLn.
  vith vithkuqi:DVAeCy.
  wancho wcho:HAVgCl.
  wara warangciti:ECHcDr.
  yezi yezidi:DYLkBx:CHoapaeaCnj.
  yi yiii:CIPkBVa:SErbgjdhIqaDAEge.
  zanabazarsquare zanb:ECUqCt.").map fun row => ⟨row.getD 0 "", row.getD 1 "", row.getD 2 ""⟩

def find? (name : Text) : Option Script :=
  (unknown :: common :: table).find? fun s => name ∈ splitOn ' ' s.names.toList

def owns (s : Script) : Char → Bool :=
  let own := readStretches s.own
  let isUnknown (c : Char) : Bool := Category.holds .cn c || Category.holds .co c
  if s = unknown then isUnknown
  else if s = common then
    let others := table.map fun other => readStretches other.own
    fun c => !isUnknown c && others.all fun other => !inStretches c other
  else fun c => inStretches c own && !isUnknown c

def uses (s : Script) : Char → Bool :=
  let shared := readStretches s.shared
  fun c => s.owns c || (inStretches c shared && !Category.holds .cn c)

end Script

/-! ## Properties

Those that expressions may ask for by name, other than scripts (`Property.table`). -/

/-- A property, by its names and by the texts for its characters: categories, others, and those of
the categories that do not belong to it. -/
structure Property where
  names : String
  categories : String
  added : String
  removed : String

namespace Property

def table : List Property :=
  (readRows "
  ahex asciihexdigit::BwjifBbf.
  any:Lu Ll Lt Lm Lo Mn Mc Me Nd Nl No Pc Pd Ps Pe Pi Pf Po Sm Sc Sk So Zs Zl Zp Cc Cf Co Cn.
  ascii::aEx.
  bidial::CHkadacaoBvBjccDwqbiblwcBdBcDmmoGfBvdfjBpDNVzSztEwBimEmFmFHyBjfhlfTdvmBeDFSbDbCnDbGvJfdn.
  bidian::CHcfDnjcbEjaQtbDdaDUPajLjBe.
  bidib:Zp:kadapcDza.
  bidibn:Cc:GraIWfaDArcDffffDFVtBfKmaJhigbCTLhdHWyhRQabDSYpbDSYpbDSYpbDSYpbDSYpbDSYpbDSYpbDSYpbDSYpb
   DSYpbDSYpbDSYpJxJhFIlDMXbbDSYpbDSYpb:jepdDya.
  bidic bidicontrol::CIeaJVmbBbeCed.
  bidics::BsacblaDyaCBkaJXjavaDGCiacadaHbacbla.
  bidien::BwjErbgaCJfjJQtaefhjBNjtDESzjBLgBaDCPnBxJMfkEDij.
  bidies::BracaMGbbpbPbaDEFnaBFtbGmaca.
  bidiet:Sc:BjacaFjbCAqbDsaJTueFloDraIvaBYUwaBGQgalaFxaca:CHnaTfbDPEbaDMKia.
  bidifsi::MHca.
  bidilre::MEsa.
  bidilri::MHaa.
  bidilro::MEva.
  bidim bidimirrored:Ps Pe Pi Pf:CiacaMUsfiakdcaybgacahagdphdBdedgakbdacbcafiredbfxdecbdeBUzbebcacai
   bgcedQwafadcdhjaibdbkdcbtbmadbBydgbhbBnbuBpehcBniafchcjdKaaDBRqbHbaca:MEahFJfaShcCZRrbIibBdpdb.
  bidinsm:Mn Me::EVnahaDXZdbVva.
  bidion:Pc Ps Pe Pi Pf Sm Sk So:BhbebdaraebBcaCragapbfdTmbmjBdaFgakajaTvaXxcBShgCVyaBMujhkMcbCOxhjh
   oddddcekcacjJipBqaBBzBnDvvYhBdCBegJxbfcdadndblxcmdcjaQeczauanaDvaDnaNeoDeoBRRicDwalbFwiEbaJcdBGKv
   gdaxctbddfadaccibhadaFubebdaraebBcaBladbFscKcaClCesbCWqaUsgBXztCGxmBHWwaBWXtb:BraFdbBLpaPaaJlbPea
   OgaOkaKlaIaaBqaPccqaccdfv-eFehcfcbgdHqbCFeaBWujkiBVcaCcbpbGhaBhaHnbLfCqBbaKdCzRjaNcJvDGjbfjDtBcoB
   dzBbealBmqlfGkfDudBeBRTrbGqbcaWccIsaBEFuaFhqZwaGnaVkiDabCoBsCLvbWuaEStaBFUzdgaBEUxaHCeElCjJllBmdC
   hgcxbiBdfCgBVtaCgaCgaCgaCgaDjTrCedBzhcncbCOvaEHxaFaaBMgBecCfhCiCgBcoBrfiib.
  bidipdf::MEua.
  bidipdi::MHda.
  bidir::CCuaBuacadadacCdRhBqkbfccxfakaeagBqedIZgaDEYwacjcBlEUzLacIqeadefBnedcGidDdiRfCnLbBgBrdFaCnr
   fErDDUvHziEeiBEyDdClDdGtJxJv.
  bidirle::MEta.
  bidirli::MHba.
  bidirlo::MEwa.
  bidis::jacaua.
  bidiws:Zs Zl:ma:GeaLYta.
  c:Cc Cf Co Cn.
  cased:Lu Ll Lt:GoaqaTiiibBfeDtaCbaJTaCkoaBjBkBAoaoarmHoBfBFrBzCWpbBUGlbIdaFgbBHjdBIXdadccBpciDKKsz
   hzhz.
  caseignorable ci:Lm Mn Me Sk Cf:BnahamaEvaBBsaSeaFtaJXkbladaDGBcaCladaGwahama.
  changeswhencasefolded cwcf:Lu Lt:GzaBqaEcaCcaRmaEvaobebBabeaPmaFMffDFviUkbIvhjhjhlcdalcdaBrcdaNxpB
   GhzBYZpDbBEAjgne:BLqcFZoDhEYnafaecdcdaeehaeaebdbcalbgaGIQlzBbzBbzBbacbdadbddchBbzBbbcddhcgBcbcdce
   caegBczBbzBbzBbzBbzBbzBfyBiyBiyBiyBiyBia.
  changeswhenlowercased cwl:Lu Lt:MQqpBGhz:BLqcLBiafaecdcdaeehaeaebdbcalbgaGIQlzBbzBbzBbacbdadbddchB
   bzBbbcddhcgBcbcdcecaegBczBbzBbzBbzBbzBbzBfyBiyBiyBiyBiyBia.
  changeswhentitlecased cwt:Ll:RkadadaBnaNcaLLbpBGrz:MaaDhaoapbpaeaDvatfBcadacadcdacadagbcadbcgcbcad
   checachdqMvaNsaBoaEHcBqdcEOfBrCmmdccpclJybcaXvaebeaBcafafadbjdEFwadadeEbaBUIebCmhwahaBaaBkacaBlaB
   FqBicggiEIJizBbgcrBbzBbdcacgckBbzBbzBbzBbzBbzBbzBbzBbzBbBbBdycfBbycfBbycfBbycfBbycfcaCSzjct.
  changeswhenuppercased cwu:Ll Lt:BGfaLLbpBGrz:MaaDhaoapbpaeaDvatfBcadacadcdacadagbcadbcgcbcadchecac
   hdqMvaNsaBoaIXcBrCmmdccpclJybcaXvaebeaBcafafadbjdEFwadadeEbaBUIebCmhwahaBaaBkacaBlaBFqBicggiEIJiz
   BbgcrBbzBbdcacgckBbzBbzBbzBbzBbzBbzBbzBbzBbBbBdycfBbycfBbycfBbycfBbycfcaCSzjct.
  dash:Pd:MGhaBoaqaPba.
  defaultignorablecodepoint di::GraZyaBBpaEGxbCKibDieDAqeBbeBypGKzaCZMqpJgaGfaDciCTLodHWyhBTKZmGBn.
  dep deprecated::MraBYwaDKuacaDCkbDIkfBAwbBZRYla.
  dia diacritic:Sk:HbaTlrflpeiacasDachgfsagaKfeIcaCeqcBacacbcaFfhfbFfbfbecCqBaDokChkBjbExhBqjrBbCkar
   aedBdaCxaraEharaEharaBwcCjaraiaEqaEharaEharaEgbraEvaEvfcaEeaoeCybBc-efbCpccbClaEjacbBpbfeBagcalbB
   BecBKnbGykkaNkcMchdaBxodkEbaqaBniCdbFjbCnfDfyfahadcBzCkDmlBmkFRccMgaTnfEcbDuaBSMlanbcaBdbDfbBmiEb
   aEibHvaBcrCgdBlaDsanaBlaFucCodCaaDydkaFbbBDZtaBDqpMjaBubBGbaBTofcBpciBFfbWafUxkBydHlaBqaCvbErbCla
   CzakcEbbGxbDearazgeeHyaeaEubJsbExaEpbEmaKkbJzbfaGbaDgataDeaQgaJzacbDeaBDHpeCigBQvqDdbYGddcgcbLTiB
   tdwUzcefjhdgBfdFWtgOmaCkdCFxgEgccc:DGaaDOCgqDQAbe.
  ebase emojimodifierbase::OLhaImardGSJwaCjcdadcEobdkwseafccciacazaHubfawafbGtceeDgarckamaWeadajhhak
   jdcCfaCkbcbcasccmIwcBrg.
  ecomp emojicomponent::BjahagjMBkaIgaDFTsaDOIxzToeCEbdBSVUrDr.
  emod emojimodifier::HHIxe.
  emoji::BjahagjEiafaLYsanaIjaxaDnfqbOebnaGlaBakfcHsaIyblakaChdcekadadbdafadacbdaeaebjcgacaglmbdacbc
   atadbtfcacbebgadbfbmbgbdagbcacbvbgfcddafadadfcad-ehaeahalbqadafacafccambBxckapapaOjbRwcubCaafaBVv
   anaXeacaGMRraHvaGfbnbpadjCyzcbyavadiwbGtBhdEhdbccdDedccKccCkmfcxibdhnadddafbobdajbkagcncjcdacafah
   aeahDhBxCrghdcgieacbeadjIulfaKyBucjcHcEjeeeegkBcekgfljhhjg.
  emojipresentation epres::NHqbHydeadaUcbwbBzlBsauaoajbsbgbjagawaibcafadaiafbBdaBkacafccaCkczapaBHcb
   CaafaGPLfaHvaHjadjCyzcazavadeccwbGtBgnicCrcvnBqfenqeaeCscacHedCkodcxtaBbboaDjDgBxCrhaecdcgcmbiiIu
   lfaKyBucjcHcEjeeeegkBcekgfljhhjg.
  ext extender::HbaUrbBHvaRaaBHbaBCzaEyaDNgaCfaXoaPjaCraHKkaBseEabDqcBQBvaCGtaBLbaxaFiaEfawbBFZwaDBl
   bEMtaXtcBVkaBEOgbBTlbcaBQYbbDBbc.
  extendedpictographic extpict::GnafaLYsanaIjaxaDnfqbOebnaDsaCtaBakfcHsaIyblakaChdcfclcEjlEndkcacaha
   eahalbqadafacafccameBuckapapaOjbRwcubCaafaBVvanaXeacaGMRnJvocBgaCjfnbpadjtCeBcolavadicdkQrgMfjKfB
   xExEnlDiBqndCfhlfBphBfDdnBucjcQyJxBNh.
  graphemebase grbase:Lu Ll Lt Lm Lo Mc Nd Nl No Pc Pd Ps Pe Pi Pf Po Sm Sc Sk So Zs::DRyazaNvazaDza
   zaJbatbEaazaEqaqaFBiaHYnbDAOlbHLfazaNhanaJiaBInaCRTtaje.
  graphemeextend grext:Mn Me:DRyazaNvazaDzazaJbatbEaazaEqaqaFBiaBVraGCwbDAOlbHLfazaNhanaJiaBInaCRTta
   jeBTLBaDr.
  graphemelink grlink::DNpaEyaEyaEyaEyaEyaEyaEyaEgbraEvaEiaEyaHuaGzbCPmbBfaGcaZeaIuaDybCtbGQuaBUKlaB
   maFwaFnaEfaLyaJnaBJSsaCHjaBqapaCgaEsbFkaEnaGzaDvaJlaEyaJtaEyaEpaEnaKkaKabGgaDgataDeaQgaKbbDea.
  hex hexdigit::BwjifBbfDSLmjifBbf.
  idc idcontinue:Lu Ll Lt Lm Lo Mn Mc Nd Nl Pc:HbaBBsaGAkiCLdaCTiawaFVxb:RMta.
  ideo ideographic::SEwbBaipcBLeJTnCnBFBjBHSjObdEbBSIlaBcJBzjBVpBriNUmPfBDEjCLFbBhGDsiIndINppLBkEPkU
   vCFzHHy.
  ids idstart:Lu Ll Lt Lm Lo Nl:JHlbDGkawaFVxb:RMta.
  idsb idsbinaryoperator::SEabdh.
  idst idstrinaryoperator::SEcb.
  joinc joincontrol::MDob.
  l:Lu Ll Lt Lm Lo.
  l& lc:Lu Ll Lt.
  loe logicalorderexception::FKieEueEDtcdaCCXnbdacb.
  lower lowercase:Ll:GoaqaTiiibBfeDtaCbaJTaCkoaBjBkBAoaoarmIepBGrzCWpbBUGlbIdaFgbBHjdBIXdadccBpci.
  m:Mn Mc Me.
  math:Sm:DqaBHycdaBbbdbKQzaBccmaBhdzbpbComfaebfetafadjcaeehaebdbcccfedgeCyeddcbcbcacedbfbfrdbcacgca
   hbLfdGnbcazasaRebnigegbdbeepacadfzbCgacaBedkbNfbBgjPovCmdBhbDCLgacafaIeacaDCOwDgcCscbdadbddclcacg
   cCmcddhcgcBbcdcecaegcNbdycycBecycBecycBecycBecychdBxIIrdcBacbcadacjcdcacahaf-gbbcbcad-kbacaddcgcd
   cdcacjcqgccecq.
  n:Nd Nl No.
  nchar noncharactercodepoint::DSDcBfUhbDSYpbDSYpbDSYpbDSYpbDSYpbDSYpbDSYpbDSYpbDSYpbDSYpbDSYpbDSYpb
   DSYpbDSYpbDSYpbDSYpb.
  p:Pc Pd Ps Pe Pi Pf Po.
  patsyn patternsyntax:Ps Pe Pi Pf:BhgdflgBc-eBcacaBjgcad-ebafajayaBgaLUfhjhjidddddmcjLuOlfBcdLwGfXr
   BtBwdBelPmxCkfBfdTtTtbfcdadndblxcrjBiOwcpbjaeaqaDABdb:FTydCUobDThbpbDFXhbBdpdbrfGobByacaBe-ebacb.
  patternwhitespace patws:Zl Zp:jetaDxaLYnb.
  pcm prependedconcatenationmark::CHcfIiaByaOvbDdaDVXzaqa.
  qmark quotationmark::BiafaFcaqaLWvhBabFIeaRqdocDABqdHiafaDnb.
  radical::RPwzcDknIf.
  regionalindicator ri::HGOkz.
  s:Sm Sc Sk So.
  sd softdotted::EbbHpaKwaBfaCbavaMjaDvacaJMoaCaaoaeaFdaGcaQgaIhbEGhaGELibBzbBzbBzbBzbBzbBzbBzbBzbBz
   bBzbBzbBzbDFza.
  sentenceterminal sterm::BhanaraCAcaFscGzaBscJnaCkacaebLibCPxbBElafbBDuaHrbHxagaMdbNrdGtbdbBebHhbCo
   bBKvbkcFGvaoaxbQoaBSHxaKlbIuaeaOtbDjbDsaFxbFscFpbJqaBFFjaebGoanaraCoaEDxbBXeeBtdHibEodEycFabharbD
   lbcbEfaQcbOkbgoEcbJqcTyacaJsbDkbQfbBArbBCPabFeaCobmaBGuaBDOhaLIna.
  space whitespace wspace:Zs Zl Zp:jeEqa.
  term terminalpunctuation::BhalacambeaBFzajaTuaCgaCvapaccGzaBskcaJcbCdoBgaKcbBWvbGraffMabBEkhBDuaEv
   cCubGcceaBoddbMdbNrdGtbccBebHheClbBKvbkcFGvaoafalacbebQnbBSHwbKkcIueOtbDjbDsaFwcFscEyarbJqaBFFhcc
   dGoalacambeaCoadaBPraBxaBSpaHsaLzbFxfCrfDmdBKreBtdHigEjdEycFabharbDleEfaQccnbNvdeoEcbJqcTyacaJsbD
   kbfbPzcBuaYwbCBweBANabFeaCoclaBGtbBDOhaLImd.
  uideo unifiedideograph::TSaJTnCnBFBjBICtbcacbl-ebadcDVEdCLFbBhGDsiIndINppLBkHQeHHy.
  upper uppercase:Lu:MQqpBGhzGSIzzhzhz.
  variationselector vs::JCtccaDJCbpBWNKzJf.
  xan:Lu Ll Lt Lm Lo Nd Nl No.
  xidc xidcontinue:Lu Ll Lt Lm Lo Mn Mc Nd Nl Pc:HbaBBsaGAkiCLdaCTiawa:BIgaQEnaDACdfPrbEn-o.
  xids xidstart:Lu Ll Lt Lm Lo Nl:JHlbDGkawa:BIgaEBpaEyaLYaaDACdfPrbEn-oLcb.
  xps xsp:Zs Zl Zp:jeEqaIXta.
  xuc:Lu Ll Lt Lm Lo Mn Mc Me Nd Nl No Pc Pd Ps Pe Pi Pf Po Sm Sc Sk So Zs Zl Zp Cf Co Cn::BgdcBacBe
   cBd.
  xwd:Lu Ll Lt Lm Lo Nd Nl No:Dra.
  z:Zs Zl Zp.").map fun row =>
    ⟨row.getD 0 "", row.getD 1 "", row.getD 2 "", row.getD 3 ""⟩

def chars (p : Property) : CharSet := CharSet.ofTexts p.categories p.added p.removed

def find? (name : Text) : Option CharSet :=
  let isCategory (k : String × Category) : Bool := k.1.toList.map Char.toLower = name
  if name = ['c', 's'] then some {}
  else
    match Category.names.find? isCategory with
    | some (_, k) => some { categories := [k] }
    | none => (table.find? fun p => name ∈ splitOn ' ' p.names.toList).map chars

def charsOf (name : String) : CharSet := (find? name.toList).getD {}

def changed : List CharSet := ["cwl", "cwt", "cwu"].map charsOf

def directed : List CharSet :=
  let others := table.filter fun p => p.names ∉ ["bidic bidicontrol", "bidim bidimirrored"]
  (others.filter fun p => "bidi".toList.isPrefixOf p.names.toList).map chars

def otherLetters : List Stretch := readStretches "EOiaBIkbDTIjb"

def holds? (name : Text) : Option (Char → Bool) :=
  match String.ofList name with
  | "alpha" | "alphabetic" =>
    some fun c => Letters.letters.holds c && !Category.nd.holds c && !inStretches c otherLetters
  | "bidil" => some fun c => !directed.any fun s => s.holds c
  | "changeswhencasemapped" | "cwcm" => some fun c => changed.any fun s => s.holds c
  | _ => (find? name).map CharSet.holds

end Property

end PatchTriage.Shell.Tools.Backtrack
