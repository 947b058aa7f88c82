/-
Scripts.

`scriptTable` holds the code points whose script is the named one.  A character
may be used by several scripts: `extensionTable` holds, for each script, the code
points on which the script and its extension disagree.
-/
import Waymark.Unicode.CodeSet

namespace Waymark.Unicode

/-- The code points of each script, under its long and short names. -/
def scriptTable : List NamedSet := [
  ⟨["adlam", "adlm"], ["Zwe0YB4941"]⟩,
  ⟨["caucasianalbanian", "aghb"], ["YXfGXJB0"]⟩,
  ⟨["ahom"], ["Ybu0Q2E4M"]⟩,
  ⟨["arabic", "arab"],
   ["Xm04151D121V19BP1ZB1X1YGXFdGX15YA1SXyoGlD2aFX0FZG41a6Zx3UY3588X15Xtu031Q11102019131010604",
     "01010121110201010101011102316131310191G52141GXK1"]⟩,
  ⟨["imperialaramaic", "armi"], ["YYY0L18"]⟩,
  ⟨["armenian", "armn"], ["XfHX52XH22Xzi34"]⟩,
  ⟨["avestan", "avst"], ["YYu0XL36"]⟩,
  ⟨["balinese", "bali"], ["cu0YC1XH"]⟩,
  ⟨["bamum", "bamu"], ["Xfr0YNXme8nO"]⟩,
  ⟨["bassavah", "bass"], ["YwsGT25"]⟩,
  ⟨["batak", "batk"], ["c+0XJ83"]⟩,
  ⟨["bengali", "beng"], ["Yi0317212L1610332821238041142O"]⟩,
  ⟨["bhaiksuki", "bhks"], ["YdW081XC1DAS"]⟩,
  ⟨["bopomofo", "bopo"], ["tA1hmPXAZGV"]⟩,
  ⟨["brahmi", "brah"], ["YaW0YD4X390"]⟩,
  ⟨["braille", "brai"], ["gW0dV"]⟩,
  ⟨["buginese", "bugi"], ["cm0R21"]⟩,
  ⟨["buhid", "buhd"], ["bw0J"]⟩,
  ⟨["chakma", "cakm"], ["Yae0XK1H"]⟩,
  ⟨["canadianaboriginal", "cans"], ["bW0pVnGY5YWjQF"]⟩,
  ⟨["carian", "cari"], ["YWr0XG"]⟩,
  ⟨["cham"], ["Xgm0XM9D2923"]⟩,
  ⟨["cherokee", "cher"], ["az0YL25XbxIYF"]⟩,
  ⟨["chorasmian", "chrs"], ["YZzGR"]⟩,
  ⟨["coptic", "copt", "qaac"], ["-2DgaGZJ56"]⟩,
  ⟨["cyprominoan", "cpmn"], ["YhyGZ2"]⟩,
  ⟨["cypriot", "cprt"], ["YYW05201XB113020"]⟩,
  ⟨["cyrillic", "cyrl"], ["XW0a42b8bwGAb00YC0aZ7V+Y0YVryE1Xum0XTX10"]⟩,
  ⟨["devanagari", "deva"], ["Ye0YG4E2PXdx0Vym09"]⟩,
  ⟨["divesakuru", "diak"], ["Yce062027111T112B99"]⟩,
  ⟨["dogra", "dogr"], ["YcW0XR"]⟩,
  ⟨["deseret", "dsrt"], ["YXW0YF"]⟩,
  ⟨["duployan", "dupl"], ["ZlW0ZA5C387923"]⟩,
  ⟨["egyptianhieroglyphs", "egyp"], ["YiW0XYLAZyQ"]⟩,
  ⟨["elbasan", "elba"], ["YXe0X7"]⟩,
  ⟨["elymaic", "elym"], ["YZ-0M"]⟩,
  ⟨["ethiopic", "ethi"],
   ["am0Y8132610132X8132X0132610132E1XO132Y22V3Pcl6M9616161616161616-f2525259616YlbH613111E"]⟩,
  ⟨["georgian", "geor"], ["ab0X510502XA13YyGXA22aY0X51050"]⟩,
  ⟨["glagolitic", "glag"], ["hW0YVZiz061G261114"]⟩,
  ⟨["gunjalagondi", "gong"], ["Ydh05111X4111579"]⟩,
  ⟨["masaramgondi", "gonm"], ["Yde06111XB30111889"]⟩,
  ⟨["gothic", "goth"], ["YWvGQ"]⟩,
  ⟨["grantha", "gran"], ["Yau0317212L1611142821222060562634"]⟩,
  ⟨["greek", "grek"],
   ["xG3122310401012101J1XUEFcf64XI444YK0g0L252X525271010101U2XK1E1D251I2218f70XYnU0rkQYEH0XqY",
     "VY5"]⟩,
  ⟨["gujarati", "gujr"], ["Yq1218121L16111429121220F32B76"]⟩,
  ⟨["gurmukhi", "guru"], ["Ym1215412L16111111201441223073107G"]⟩,
  ⟨["hangul", "hang"], ["ae0dVdnE1e1YTZHUY1Uzt1Sq3gz3CM4XGfz4U35252522"]⟩,
  ⟨["han", "hani"],
   ["hq0P1YOCcLXF010P8E3+4cjVY0qlVse0hD2Z9ze81C6XaW9XfsVX0aeT2bqD2dfGFpDYj2mTXl2awA5ef9"]⟩,
  ⟨["hanunoo", "hano"], ["bv0K"]⟩,
  ⟨["hatran", "hatr"], ["YYd0I1154"]⟩,
  ⟨["hebrew", "hebr"], ["XiHXM8Q45Xzf8P1410111119"]⟩,
  ⟨["hiragana", "hira"], ["iY1YL62Y-x1eUI0T2mbD0"]⟩,
  ⟨["anatolianhieroglyphs", "hluw"], ["YnW0o6"]⟩,
  ⟨["pahawhhmong", "hmng"], ["Ywu0Y5A9161K5I"]⟩,
  ⟨["nyiakengpuachuehmong", "hmnp"], ["Zue0XC3D2941"]⟩,
  ⟨["oldhungarian", "hung"], ["YZa0XIDXI75"]⟩,
  ⟨["olditalic", "ital"], ["YWu0X392"]⟩,
  ⟨["javanese", "java"], ["Xgi0YD2941"]⟩,
  ⟨["kayahli", "kali"], ["Xge0XD10"]⟩,
  ⟨["katakana", "kana"], ["ib1YP22dGFcGXE1YNXpWE91XCXiYI3161110eV2XI0E3"]⟩,
  ⟨["kawi"], ["Ydu0G1X83S"]⟩,
  ⟨["kharoshthi", "khar"], ["YYm031157121S224978"]⟩,
  ⟨["khmer", "khmr"], ["by0YT2969l6V"]⟩,
  ⟨["khojki", "khoj"], ["Yam0H1XE"]⟩,
  ⟨["khitansmallscript", "kits"], ["Yx-40cuRkLX90"]⟩,
  ⟨["kannada", "knda"], ["Za0C121M19142812137152132912"]⟩,
  ⟨["kaithi", "kthi"], ["Yaa0Y2A0"]⟩,
  ⟨["taitham", "lana"], ["cn0XU1S2A696D"]⟩,
  ⟨["lao", "laoo"], ["Zq1110141N101M2410161923"]⟩,
  ⟨["latin", "latn"],
   ["Y1P6PXF0F05M1U1k0X74cmRX56XG535C1Y5Y1dVhH0D0GCaD160R0HX8YsNV+r2Z53YHKEvGXA1813pyM6XWQP6PY",
     "X551X918Xrw5U65"]⟩,
  ⟨["lepcha", "lepc"], ["dW0XN3E32"]⟩,
  ⟨["limbu", "limb"], ["ce0U1B4B403B"]⟩,
  ⟨["lineara", "lina"], ["YXm0fM9LA7"]⟩,
  ⟨["linearb", "linb"], ["YWW0B1P1I111E2DX2ZQ"]⟩,
  ⟨["lisu"], ["XfcGXF+rG0"]⟩,
  ⟨["lycian", "lyci"], ["YWq0S"]⟩,
  ⟨["lydian", "lydi"], ["YYf0P50"]⟩,
  ⟨["mahajani", "mahj"], ["YagGX6"]⟩,
  ⟨["makasar", "maka"], ["Ydt0O"]⟩,
  ⟨["mandaic", "mand"], ["YY0R20"]⟩,
  ⟨["manichaean", "mani"], ["YYs0X64B"]⟩,
  ⟨["marchen", "marc"], ["YdZGV2L1D"]⟩,
  ⟨["medefaidrin", "medf"], ["Yxo0YQ"]⟩,
  ⟨["mendekikakui", "mend"], ["ZwW0c42F"]⟩,
  ⟨["meroiticcursive", "merc"], ["YYj0N4J2XD"]⟩,
  ⟨["meroitichieroglyphs", "mero"], ["YYi0V"]⟩,
  ⟨["malayalam", "mlym"], ["Ze0C121XI12154F2P"]⟩,
  ⟨["modi"], ["Ybm0Y4B9"]⟩,
  ⟨["mongolian", "mong"], ["cW01201J6YO7XAX-jLC"]⟩,
  ⟨["mro", "mroo"], ["Ywo0U1941"]⟩,
  ⟨["meeteimayek", "mtei"], ["Xgt0Mc9XD29"]⟩,
  ⟨["multani", "mult"], ["Yaq0610131E1A"]⟩,
  ⟨["myanmar", "mymr"], ["aW0aVXcg0UZ1VxYGJ"]⟩,
  ⟨["nagmundari", "nagm"], ["ZvcGX9"]⟩,
  ⟨["nandinagari", "nand"], ["Ycj072XD2A"]⟩,
  ⟨["oldnortharabian", "narb"], ["YYq0V"]⟩,
  ⟨["nabataean", "nbat"], ["YYa0U88"]⟩,
  ⟨["newa"], ["YbW0YR14"]⟩,
  ⟨["nko", "nkoo"], ["X+0XQ22"]⟩,
  ⟨["nushu", "nshu"], ["Yx-10miEiB"]⟩,
  ⟨["ogham", "ogam"], ["bq0S"]⟩,
  ⟨["olchiki", "olck"], ["dYGXF"]⟩,
  ⟨["oldturkic", "orkh"], ["YZW0Y8"]⟩,
  ⟨["oriya", "orya"], ["Yu1217212L1611142821227241142H"]⟩,
  ⟨["osage", "osge"], ["YXbGX34X3"]⟩,
  ⟨["osmanya", "osma"], ["YXa0T29"]⟩,
  ⟨["olduyghur", "ougr"], ["YZxGP"]⟩,
  ⟨["palmyrene", "palm"], ["YYZ0V"]⟩,
  ⟨["paucinhau", "pauc"], ["Ycs0XO"]⟩,
  ⟨["oldpermic", "perm"], ["YWwGXA"]⟩,
  ⟨["phagspa", "phag"], ["XgY0XN"]⟩,
  ⟨["inscriptionalpahlavi", "phli"], ["YYx0I57"]⟩,
  ⟨["psalterpahlavi", "phlp"], ["YYy0H73C6"]⟩,
  ⟨["phoenician", "phnx"], ["YYe0R30"]⟩,
  ⟨["miao", "plrd"], ["Yxu0YA4XO7G"]⟩,
  ⟨["inscriptionalparthian", "prti"], ["YYw0L27"]⟩,
  ⟨["rejang", "rjng"], ["XgfGX3B0"]⟩,
  ⟨["hanifirohingya", "rohg"], ["YZe0X789"]⟩,
  ⟨["runic", "runr"], ["br0YA3A"]⟩,
  ⟨["samaritan", "samr"], ["YW0XD2E"]⟩,
  ⟨["oldsoutharabian", "sarb"], ["YYp0V"]⟩,
  ⟨["saurashtra", "saur"], ["Xga0Y58B"]⟩,
  ⟨["signwriting", "sgnw"], ["ZsW0qBF41E"]⟩,
  ⟨["shavian", "shaw"], ["YXYGXF"]⟩,
  ⟨["sharada", "shrd"], ["Yai0YVYi07"]⟩,
  ⟨["siddham", "sidd"], ["Ybi0XL2X5"]⟩,
  ⟨["khudawadi", "sind"], ["YarGXQ59"]⟩,
  ⟨["sinhala", "sinh"], ["Zi121H3N181026304510176922YW-CJ"]⟩,
  ⟨["sogdian", "sogd"], ["YZvGX9"]⟩,
  ⟨["oldsogdian", "sogo"], ["YZu0X7"]⟩,
  ⟨["sorasompeng", "sora"], ["YacGO79"]⟩,
  ⟨["soyombo", "soyo"], ["YcoGYI"]⟩,
  ⟨["sundanese", "sund"], ["cy0XVe07"]⟩,
  ⟨["sylotinagri", "sylo"], ["XgW0XC"]⟩,
  ⟨["syriac", "syrc"], ["Xu0D1XR22eGA"]⟩,
  ⟨["tagbanwa", "tagb"], ["bx0C1211"]⟩,
  ⟨["takri", "takr"], ["Ybq0XP69"]⟩,
  ⟨["taile", "tale"], ["cgGT24"]⟩,
  ⟨["newtailue", "talu"], ["ci0XB4P6A31"]⟩,
  ⟨["tamil", "taml"], ["Yy2115321331101131323B4432132060EKYa+5XHD0"]⟩,
  ⟨["tangut", "tang"], ["Yx-00VctVm0UZ1ZI"]⟩,
  ⟨["taiviet", "tavt"], ["Xgq0Y2O4"]⟩,
  ⟨["telugu", "telu"], ["ZW0C121M1F281213711211232978"]⟩,
  ⟨["tifinagh", "tfng"], ["hfGXN71E0"]⟩,
  ⟨["tagalog", "tglg"], ["bu0L90"]⟩,
  ⟨["thaana", "thaa"], ["Xy0XH"]⟩,
  ⟨["thai"], ["Zm1XP5R"]⟩,
  ⟨["tibetan", "tibt"], ["Zu0Y71X34X61X31E1641"]⟩,
  ⟨["tirhuta", "tirh"], ["Yba0Y789"]⟩,
  ⟨["tangsa", "tnsa"], ["YwpGYE19"]⟩,
  ⟨["toto"], ["ZuqGU"]⟩,
  ⟨["ugaritic", "ugar"], ["YWy0T10"]⟩,
  ⟨["vai", "vaii"], ["Xfe0fB"]⟩,
  ⟨["vithkuqi", "vith"], ["YXhGA1E16111A1E1611"]⟩,
  ⟨["warangciti", "wara"], ["Ycb0YIC0"]⟩,
  ⟨["wancho", "wcho"], ["Zus0XP50"]⟩,
  ⟨["oldpersian", "xpeo"], ["YWz0X34D"]⟩,
  ⟨["cuneiform", "xsux"], ["YeW0yPZ6ZE14Bc3"]⟩,
  ⟨["yezidi", "yezi"], ["YZq0X91221"]⟩,
  ⟨["yi", "yiii"], ["XeW0XaC3XM"]⟩,
  ⟨["zanabazarsquare", "zanb"], ["Ycm0Y7"]⟩,
  ⟨["inherited", "zinh", "qaai"],
   ["u0ZFeL1k4AQ0t03agRXD2Bl421C16406031c6XVmC1c2X0ZvP3ZB1Xph5FGD+F0d20aYQ0Xk+4XD2Mn02H726U3uh",
     "wIdF"]⟩,
  ⟨["common", "zyyy"],
   ["0Y0Q5QXE1E14N0V0k1X6542JZK0906010pT060E030X00aS0m40a11XcP0iL3f20XlF2Y71cB110XcD0D07315122",
     "0u5B2YM1A3A1EHX1XUX512251Q1GX924qPMALyVe0pJ2a9m0YTiIK101OF743YR130YQ1aJFX0X590XGXVVYGXF0Y",
     "Ob7ck0XVse0X1Z62b59dK0b00iB0E1qkI1cG9MX21I13aJ01VQ5QAA0XD1Y0616A4e224XC38YGCXJXCd4QXkj43Z",
     "wSdS3jJ6MFGYVZJXSdLAX62XT3G817T4XScLJCJCYM9Oa7YK1Y6112021231B10161Y01327161R131410361gJ2f",
     "32XHbZHY3YCXSs2XB4Z3CE2E1E1X4AbDXOP11DXB4871E5aQ+O3G3C3cP6B40FB4XN896X78T2B41E8X7gN8D2C3A",
     "3XO104F2B497aI1Z6uXW60UYV"]⟩,
  ⟨["unknown", "zzzz"],
   ["xO1637010K0iD0X61XI130XN7R36AeE0XS1Z5DXR1XH1F0S110B4X24dD08121M0701241912147132051P130632",
     "1M07020202110532132164016H9309030M0702051A030311E41C670308121M0702051912136332051I9206230",
     "422010222232C3523041151DL4D030N0G190304620302141A6M030N0A051903046243041A03BD030XJ03063G1",
     "Q030I2O090117213601085A13BXQ3TX4201050O010N1501070A14VY80X43X70X40F0DX4c601411hP041701041",
     "X9041X1041701041F0XP041Y31X02Q5YM161qT2YP6M8O8KBD0302BYU1A5A5Q5YP6XB4Y69V0C3C312XA15AXC3Q",
     "5B2XU1Y10T1B5A5E1XE1CJYD0b67XS2F2XU4XB1B7XB4mM161X616180101010V1XL0F0E160J13090Z50C1R0D2X",
     "2DX1EaC3qQLBKXuK1hU4XD01411XO62DO87070707070707070ZUX1Q0YPBcMPYG0YM1Z74XB0YU0YM8XG0ypD2XN",
     "8gSJbO7cTJXS2A5XO7Y67C5ZKAU2YE0B3X10XN8E1A1Z7NS96161687070XS3ZU1A5gz4BN3XHee3hE1ZAX57B54Q",
     "050102020qAVXA5XJ0J04350a7110bU261616132707951C0Q0J020F1EX1ZR433XD2YO0D21XEXEa1T2XHES3X48",
     "U4XB4U0X53EX9aU1A5X43X43X87XKAC0F07020B0F07022XKBfN8M98N60XA09Y46110XC02211N0Y879XFJ024X1",
     "2R4RX5XO3K1XI0248030T133A696Y0VX73C8XM2T1R4Q64B7YFY9XMXJCXJ6XE7A5X62T72cFV0XA0312F679X0XE",
     "7XALQX5SJN8YE3X48Y4911P6A5XL0I7X78Z00KAI0XFXT701040F0B5XR4A5408121M0702050A12131151471725",
     "AA01110X60A0111040A0272SYS05TY87Ab5XM1X6X1Y5AA5DIXQ5A5KRR1F3NbOXSZ3YJB81118020U021C8AY581",
     "XE1BQY87YJCY96AYL8YNX2DA590XD0E9T2X01M0EY87020XC2102097A56020X502066A5XC3AdLP6H0X92TYK1EX",
     "ICyRZ5ZF05Ac4YoBZ3CXYM9ZyR4o7crOXQXs5nP6V0A3YH0A5U169Y69A070L4JjFXQc5YR4P1PXBYB3XP6HXV5A7",
     "8dcMX8X0Z0ZJelS407020f3E1S311D47iCYe3ZB4D296A18ZwRdT2jK5NEHEXE1N8ZKXRdM9X71c2KY6ZPKBKBYN8",
     "Pa6YL0Y7021112140C01070Y10418070S040501270gK1f41rUE50FXYFV56cK70H1702054XUX01ZFXD2E1A32fV",
     "VGXQ41kFXAcLXB31bVV0M72cV704020F0c51GX8YC3A32uGY4YBXTc140R0201110A04010151310101030201110",
     "1010101020114070404010A0H43050HXJ2eDXC3Z4BF1F0F0X59bEXNTCXC3962D6aP+P2H2D2cQ5C31EC3XO7A5X",
     "87U1C32D9X6gO7E1D2B2XP013G1C3A6aJ0Z7XW4Xft0VaeU1bqE1dfHEpEYj1mUXl1awB4efAroy61TZ0ZVdGb-mF"]⟩,
  ⟨["garay", "gara"], ["YZg0X53S81"]⟩,
  ⟨["gurungkhema", "gukh"], ["Yue0XP"]⟩,
  ⟨["kiratrai", "krai"], ["Yxg0XP"]⟩,
  ⟨["olonal", "onao"], ["ZvkGXA40"]⟩,
  ⟨["sunuwar", "sunu"], ["Yc+0X1E9"]⟩,
  ⟨["todhri", "todr"], ["YXk0XJ"]⟩,
  ⟨["tulutigalari", "tutg"], ["Yay0910201X519102013191181"]⟩,
  ⟨["beriaerfe", "berf"], ["Yxr0O2O"]⟩,
  ⟨["sidetic", "sidt"], ["YYg0P"]⟩,
  ⟨["taiyo", "tayo"], ["Zvs0U1L81"]⟩,
  ⟨["tolongsiki", "tols"], ["YdjGXB49"]⟩]

/-- The code points in exactly one of a script and its extension. -/
def extensionTable : List NamedSet := [
  ⟨["adlam"], ["XmV0X00cmE0ZlH0"]⟩,
  ⟨["caucasianalbanian"], ["u40XC0XC0"]⟩,
  ⟨["arabic"], ["XmC0E030X00AAQ0ckU0ZlH0XptS1Xj0R"]⟩,
  ⟨["armenian"], ["u80"]⟩,
  ⟨["avestan"], ["bN0hhO1"]⟩,
  ⟨["bengali"], ["rS0XqK1H1axA01021108080204022XY-P0"]⟩,
  ⟨["bopomofo"], ["s7012D0hf72491CA32060c30Xpg91eQ4"]⟩,
  ⟨["buginese"], ["XgkF0"]⟩,
  ⟨["buhid"], ["bvL1"]⟩,
  ⟨["chakma"], ["Yl69XoG9"]⟩,
  ⟨["carian"], ["bN0dz2020ZkJ0"]⟩,
  ⟨["cherokee"], ["u021061M1B1"]⟩,
  ⟨["coptic"], ["bN0o803110ZC1gr10Xrc8R"]⟩,
  ⟨["cyprominoan"], ["YWe01"]⟩,
  ⟨["cypriot"], ["YWe024XC38"]⟩,
  ⟨["cyrillic"], ["rS0Y321010102050hJ1chH0aYA0"]⟩,
  ⟨["devanagari"], ["rS0XqK1H1axAX611-M0XXvV9"]⟩,
  ⟨["dogra"], ["Yh4BXds09"]⟩,
  ⟨["duployan"], ["bN0oF110O1guN0ZZp33"]⟩,
  ⟨["elbasan"], ["bN0oD0"]⟩,
  ⟨["ethiopic"], ["uE0"]⟩,
  ⟨["georgian"], ["bN0XcH0YxH0ZwU0ZkM0"]⟩,
  ⟨["glagolitic"], ["bN0oB010hU020e10YxH0ZwU0Zl80+XB0"]⟩,
  ⟨["gunjalagondi"], ["bN0YbC1"]⟩,
  ⟨["masaramgondi"], ["Yh41"]⟩,
  ⟨["gothic"], ["bN0oC120X80"]⟩,
  ⟨["grantha"], ["YgH1H1q0DacS011U231-M0XyoA0ZaK110"]⟩,
  ⟨["greek"], ["bN0o81201010A0XE020XE0coB1qR0"]⟩,
  ⟨["gujarati"], ["YgH1H1XdsA9"]⟩,
  ⟨["gurmukhi"], ["YgH1H1XdsA9"]⟩,
  ⟨["hangul"], ["iW12491CG060c30Xpg91eQ4"]⟩,
  ⟨["han"], ["bN0hvOF1220191CA3206043bR0aKFX0X590XGX7XOXGFBXJ0YOOA4Z0Uyu17rvT1eQ4Xq-QHdsU1"]⟩,
  ⟨["hanunoo"], ["bvL1"]⟩,
  ⟨["hebrew"], ["u71"]⟩,
  ⟨["hiragana"], ["iW12491CG51041YR330YQ1Xpg81eQ4A0XD1"]⟩,
  ⟨["oldhungarian"], ["eYQ020ZkJ0F0"]⟩,
  ⟨["javanese"], ["XgkF0"]⟩,
  ⟨["kayahli"], ["XgfE0"]⟩,
  ⟨["katakana"], ["u50T0hcT2491CG51041YR330YQ1Xpg81eQ4A0XD1"]⟩,
  ⟨["khojki"], ["Yt69Xdg09"]⟩,
  ⟨["kannada"], ["YgH1H1axA01160N010XYvR5"]⟩,
  ⟨["kaithi"], ["Yh69fc10+lU9"]⟩,
  ⟨["latin"], ["bN0m40A012109010X6E1110F27111X60504CeL1XcA1Xz80ZdS0nM0c00Zf60+d87n60"]⟩,
  ⟨["limbu"], ["Yh50"]⟩,
  ⟨["lineara"], ["YWe7XC"]⟩,
  ⟨["linearb"], ["YWe024XC38"]⟩,
  ⟨["lisu"], ["rS0G0hfS1"]⟩,
  ⟨["lycian"], ["eYQ0"]⟩,
  ⟨["lydian"], ["bN0hhP0"]⟩,
  ⟨["mahajani"], ["bN0YbCBXds09"]⟩,
  ⟨["mandaic"], ["Xo00"]⟩,
  ⟨["manichaean"], ["Xo00"]⟩,
  ⟨["meroitichieroglyphs"], ["eYT0"]⟩,
  ⟨["malayalam"], ["YgH1H1axK0N0XYvT2"]⟩,
  ⟨["modi"], ["XgXG9"]⟩,
  ⟨["mongolian"], ["cW2110YX90Z+H153"]⟩,
  ⟨["multani"], ["Yp69"]⟩,
  ⟨["myanmar"], ["XgfE0"]⟩,
  ⟨["nandinagari"], ["YgH0I1y09Z-P08070XYvL5"]⟩,
  ⟨["newa"], ["YgH1ay201190601010"]⟩,
  ⟨["nko"], ["XmC0E030XzuU1"]⟩,
  ⟨["oldturkic"], ["eYQ0ZkL0"]⟩,
  ⟨["oriya"], ["YgH1H1axK0N0"]⟩,
  ⟨["osage"], ["u102060YC0"]⟩,
  ⟨["olduyghur"], ["Xo00YXbH0"]⟩,
  ⟨["oldpermic"], ["bN0o8052A0hF0"]⟩,
  ⟨["phagspa"], ["cW2110YX90Z+I0"]⟩,
  ⟨["psalterpahlavi"], ["Xo00"]⟩,
  ⟨["hanifirohingya"], ["XmC0E030X00aJ0"]⟩,
  ⟨["runic"], ["btB2"]⟩,
  ⟨["samaritan"], ["hnH0"]⟩,
  ⟨["shavian"], ["bN0"]⟩,
  ⟨["sharada"], ["YgH0ay501021209020XYw2520"]⟩,
  ⟨["khudawadi"], ["Yh41XdsA9"]⟩,
  ⟨["sinhala"], ["Yh41ayC0"]⟩,
  ⟨["sogdian"], ["Xo00"]⟩,
  ⟨["sylotinagri"], ["Yh41a09"]⟩,
  ⟨["syriac"], ["u312110O27111sQ0E120X00AAQ0by7010"]⟩,
  ⟨["tagbanwa"], ["bvL1"]⟩,
  ⟨["takri"], ["Yh41XdsA9"]⟩,
  ⟨["taile"], ["u015130ZfJ9"]⟩,
  ⟨["tamil"], ["YgH1H1axK0XZWO0wmD010XN1"]⟩,
  ⟨["tangut"], ["h-GFlF0"]⟩,
  ⟨["telugu"], ["YgH1H1axF11010N0"]⟩,
  ⟨["tifinagh"], ["u201013P0"]⟩,
  ⟨["tagalog"], ["bvL1"]⟩,
  ⟨["thaana"], ["XmC0E120Y09Xzy80A0"]⟩,
  ⟨["thai"], ["rS0Q0XB0XD0"]⟩,
  ⟨["tibetan"], ["iW83"]⟩,
  ⟨["tirhuta"], ["YgH1H1axF0C0F0XYvT9"]⟩,
  ⟨["toto"], ["rS0"]⟩,
  ⟨["yezidi"], ["XmC0E030Y09"]⟩,
  ⟨["yi"], ["iW115927cV0Xpp54"]⟩,
  ⟨["inherited"], ["u0E1110F27111G020I0504CeL1k4AQ0t01axT21C16406031c61XM010tL0ZvP3ZB1Xqo50aYQ0"]⟩,
  ⟨["common"],
   ["bN0m40A012109010aQ0qN0E030X00v31XyL0XlF2Y71cB110XcD0D073151220vK0V0A020ZjP0O1A04010jCF122",
     "0191CG51043YR130YQ1aJFX0X590XGX7XOXGFBXJ0YOOA4Z0Uyu17f89dK0b00qxE1e51eQ4A0XD1h024XC38j1QX",
     "kj43brSHdsU1"]⟩,
  ⟨["garay"], ["XmC0E030"]⟩,
  ⟨["gurungkhema"], ["Yh50"]⟩,
  ⟨["olonal"], ["Yh41"]⟩,
  ⟨["sunuwar"], ["u01109020S030"]⟩,
  ⟨["todhri"], ["u1020209010YA0"]⟩,
  ⟨["tulutigalari"], ["Zd69aW2010XYvR5bR0"]⟩]

/-- A script by its loose name. -/
def script? (name : String) : Option CodeSet :=
  (scriptTable.find? (·.hasName name)).map (·.codes)

/-- The extension of a script by its loose name. -/
def scriptExtension? (name : String) : Option CodeSet := do
  let entry ← scriptTable.find? (·.hasName name)
  match extensionTable.find? (fun changed => changed.names.any entry.hasName) with
  | some changed => some (entry.codes.symmetricDifference changed.codes)
  | none => some entry.codes

end Waymark.Unicode
