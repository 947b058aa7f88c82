/-
General categories.

`categoryTable` holds the code points of every general category, and
`category?` finds a category or one of the groups of categories by a loosely
spelled name.  Surrogates are no characters, so their category is left out.
-/
import Waymark.Unicode.CodeSet

namespace Waymark.Unicode

/-- The code points of each general category, under its short and long names. -/
def categoryTable : List NamedSet := [
  ⟨["lu", "uppercaseletter"],
   ["Y1PZ5M16X10101010101010101010101010101010101010101010101010101010201010101010101020101010",
     "10101010101010101010101010101010101010111010311011122311123111101011102011121011307020202",
     "01010101010101020101010101010101020201210101010101010101010101010101010101010101010101010",
     "101010107111201310101010f10103080601210111G18X30223010101010101010101010105020112XIXG0101",
     "01010101010101010101010101010901010101010101010101010101010101010101010101010101010111010",
     "10101010201010101010101010101010101010101010101010101010101010101010101010101010101010101",
     "0101010101010102X5Yw9X51050sIYLYaJ06XA22g001010101010101010101010101010101010101010101010",
     "10101010101010101010101010101010101010101010101010101010101010101010101010101010101010101",
     "01010101010109010101010101010101010101010101010101010101010101010101010101010101010101010",
     "10101010101010101010109785A78785B010101087Y83C3C3C4B3e6040322220346010101323A150XT0YpSXFX",
     "G0122010101310208210101010101010101010101010101010101010101010101010101010101010101010101",
     "010101010101010101010101010801040+gD010101010101010101010101010101010101010101010J0101010",
     "10101010101010101010a70101010101010301010101010101010101010101010101010101010101010101010",
     "10101010A01011101010104010201030101010101010101010141410101010101010131011101010101010101",
     "0O0rvBPXc5X7a8X3aSA1E1611XtAXIaTLYvQVri0VY0Ovg7PQPQPQ01120212317QPQ1132716R113141036RPQPQ",
     "PQPQPQPUOX1OX1OX1OX1OX10afLX1"]⟩,
  ⟨["ll", "lowercaseletter"],
   ["Z1PXQ0X9N17101010101010101010101010101010101010101010101010101010111010101010101011101010",
     "10101010101010101010101010101010101010102010122010203140203220201010201110203010212260202",
     "01010101010101011101010101010101011201030101010101010101010101010101010101010101010101010",
     "1010101016202110401010101Y42Pc10103032I0RX21132101010101010101010101014102021XJXF10101010",
     "10101010101010101010101010901010101010101010101010101010101010101010101010101010201010101",
     "01011101010101010101010101010101010101010101010101010101010101010101010101010101010101010",
     "101010101010XGX8Yw7XA22tO5Ya2810ZLXBXVC1X1Z6010101010101010101010101010101010101010101010",
     "10101010101010101010101010101010101010101010101010101010101010101010101010101010101010101",
     "01010101010101810101010101010101010101010101010101010101010101010101010101010101010101010",
     "10101010101010101010101885A78785A7878D2787878411603211832187A211eI03130R04040218340XL0YrB",
     "XF103110101040111550101010101010101010101010101010101010101010101010101010101010101010101",
     "01010101010101010101010101011701040CX51050+eJ01010101010101010101010101010101010101010101",
     "0J010101010101010101010101010a70101010101012101010101010101010101010101010101010101010101",
     "01010101010101010171010201010101040102012101010101010101010105050101010101010104010201010",
     "1010101010Q030vLXA587YFpw06C4XX9PXcDX7a8X3aRA1E1611Xu3XIZTLYvQVri0VXROvg6PQ61HQPQ310161AQ",
     "PQPQPQPQPQPQPQPQRSO15QO15QO15QO15QO1510XvK91J65YlNX1"]⟩,
  ⟨["lt", "titlecaseletter"], ["k502020X60diL78787C0F0XF0"]⟩,
  ⟨["lm", "modifierletter"],
   ["rGH4BE47010a5050kU0d60b41eD140V09030b00b70XcK0ZV0nL0XsQ0ZB0p30kG5bEXUD0X2X4rH0D0GCY+V1dH0",
     "bV0kL0XB450Z11YT2xuM0Xd25eE0ZI0S1ZP8YG0N0Z8331kL0M0a90ZC0L1Z7390rW60XD1X-051X918XiJ0X00gL",
     "0ZuJ0ph63lS2X81n6CY0110E1l-S31611iXHXTc96zD0mJ0oB0"]⟩,
  ⟨["lo", "otherletter"],
   ["bA0F0e0043cG1vQQ43XDV19X311Z210O1A220G01TTYOB0OX0LLXAO7A5N16GX8XRXL30I079GE47212L16103330",
     "G0D112E1A085412L16111111V310J2G8121L16111430I0F1N0B7212L16111430U112F0H015321331101131323",
     "BM0XK7121M1F30Q21121U047121M191430U211F1H8121X820G05282O55H3N181026XQXF11C5XR110141N10191",
     "19024N3X00XV71X3R4ZJXAK0G5433031724CC0ZHg8132610132X8132X0132610132E1XO132Y2X5FZHpB2G1P5Y",
     "A677HDIEHEC12FXJX80Y3X21XK742X1105Y5AUXHT24BXB4PXMM9XKbGXEH7XMTD1AXBQX3X92ATZH3151130XXQ3",
     "Y-NXNOM9616161616161616n70XL04YL801YP405XA1YTHVXGFm0cjVY0qmK1XZMY3X78eB4FA1Y20XHY5b90Z703",
     "612131MTXJEXHXU53011BRAMPS7XEXD428A41X8N217KF15303XH1031242010O13A70E525259616aHX2Tgz3CM4",
     "XGee4hD2Z9Y30191C141011111ZBX1hAIXV2XLX8BZK41a6Z991XC2U35252522X3B1P1I111E2DX2ZQi5S3XGXFV",
     "DJ176X5AT2X347a0YDZ2X78XJYSXJCfM9LA7aO5201XB11302MAM9UY1I11ALAP6PX6XN61Y00F3121SXAS3SX371",
     "RRXLALAIDHZEY8bNX3X6310fGX961G211XOSA08LXAHXEKRMCXKXP120DXCX0OQX3T0208X230CXFE3L010X3H1OJ",
     "1XV610131E197XEX67212L16111430I0C4U910201X510P010XCXKI3K2UXFK110bOXEX93X4XFK0XRXAD0Y7QX56",
     "bPXBcJ72027111NF010YU72X6G010S0AX770L0BXDJ0IY8c7X0V81X4H0XHTZG6111X5L0P5111VE0NX811e4IF01",
     "C1X1ZS0YFyPd6c3YoCZ0FXXFH5PZyQ5o6crPTXt2nO7UHYEHTIXFXJK5IjJX7iLYA50bFdcLX9VZ1ZIemDf2F0T22",
     "0E38iBYe4ZA5C3879epG0lLXCX10g1TIXBl4Qd5T20cFU1211162490d1613111E1c4XfR31Q1110201913101060",
     "401010121110201010101011102316131310191G52141Gag4XfsVX0aeT2bqD2dfGFpDYj2mTXl2awA5ef9"]⟩,
  ⟨["mn", "nonspacingmark"],
   ["u0ZFeJ4e9XC10111110Y8AXGKG0Z56252113X30UQYRAXQ890O3181214XB2XR8XAN1VXN010474036A1T0XQ0438",
     "0K1Q021XP041412230U130B1XP0441140K1M510XQ020138071B1U0XT0C0XI030XN012521371B1T0XQ0206051K",
     "1S1XP14380K1T0Y807210YQ026C7Z2028B6Y91R01010XND14115A1X390Z63151121P142G3D02160F0rV2zI2T1",
     "U1U1Y0116802A90XD210ZL1X20ZM2419062cR120XQ0161010276920XGD1U2BK3XG0141050X88C1X032112XO01",
     "13012XQ721aO21C16406031c6XVsGC403BY-U2aD0Z0VnA3ZB1zkK049X01YG1eG03040P150aN1QHD0X67PAXE2X",
     "G02321X70Y352121C080XF0XJ012215110XA180dE02040pvG0t1FGF+D0d20aL4Xq621153X8240b51nT3Y14fT1",
     "YD5Y6AXH3ZR0XMEX9021A2XH32170XT2X4417XU0C1XK8A320YV220116020aT037L1XP130X5634Y65D01010E1Y",
     "L72210N0YK5104111dE36111R1YL72011ZA0102510Z50102314e3811e011040aG32140X09X8523809522XEC11",
     "c601210c961510YIL261111ZQ530111610Y813010gR1B1XK45010N0bd506Ehc8B32Yk04XR6XWO0XV3YH0pbO1a",
     "p1XD2Mn02H726U3aK2XzRXM4XH80E0M41EXgG61G261114Z40b06hN0XT3lS3dU1dJ0207150kQ6ZD6ubzLdF"]⟩,
  ⟨["mc", "spacingmark"],
   ["Ye30XN0228311XI1XQ26121A0XB0XQ2Y20XQ28011XL1XQ0106121A0Z61113212A0X92XT3XT1XQ014211191S0E",
     "1XQ25212A0XA1YB267I1gA1XV0bB1406021P1A226L12520A2XpO0U0a107711gQ3224115d01XQ010901185aH0X",
     "G0501411XT0U04120XS0221031XG781bB0L0avM1z-J120YO1XIFaE1XF0XG14122ZE121O0XD010ZD02150dD111",
     "1110vWJ010ZV0XD241ZJ0O1XR0XG291D0YT23110bA2V1XQ113212290A1YK27020131110Z528130ZA2601320dD",
     "26320ZH28110ZD01160Z701140e5290dN511402010aE28340YK0T1XU0c903010c70E0ZA07020cL44110gU1C0X",
     "G18110ml82Zn4XMZ81uhJ165"]⟩,
  ⟨["me", "enclosingmark"], ["Xa81bnK0XmU312XXiB2"]⟩,
  ⟨["nd", "decimalnumber", "digit"],
   ["XG9Xn69a69c69iS9ZM9ZM9ZM9ZM9ZM9ZM9ZM9ZM9ZM9Z09ZM9Y69eM9Y69Xw69X69fC9a09b6969bM9YM9a6969XY",
     "k69r69X69c69M9YM9iM9quM9Xi69Ya6969uS9a09XS9aG9eM9gM9ZM9hM9Z696JYC9j69Z69qM9YM9dM9Y69XM9h6",
     "9mkM9Yf69YM9a69mM9txM9YsKXHYg09j69lM9dN9wL9aqM9"]⟩,
  ⟨["nl", "letternumber"], ["btE2YpFX223ZpU0P8E2zrB9soGXKkC080a64eXAZEoy52"]⟩,
  ⟨["no", "othernumber"],
   ["bI15022YfL5hO5ZO2a56cP6H8jH9XXLJXZJ9l00XqL03569c6FX90sMXRYELpMTXh90XaK3aA9U71EX09X7EzhG5s",
     "cHXCY13H1gLQX43XfK7P6X78YB4M5b012F2XDY08XK1U2YB4Z87O7X96gA5h0UaU9XA3ZG6a6JhRJXg51jE8x7IwJ",
     "Koy66uUMvX9JCJZCObgE8z1XQ1213YCXC1E+2C"]⟩,
  ⟨["pc", "connectorpunctuation"], ["YV0d+V1J0XtkU1O2dF0"]⟩,
  ⟨["pd", "dashpunctuation"], ["XD0XgS0XJ0Zo10XW50YW95Zm1020V140S0jU0J0ZF0XpiG1X50A0b90Zp00fU0"]⟩,
  ⟨["ps", "openpunctuation"],
   ["X80XI0V0ZrU010XwU0YhU030X60XN0F0pQ010U0XXU0101010101010YG0X0010101010iK010101010101010101",
     "010Y0010X10XX50101010P0I0101010jC0101010103010101020Xpf10cN0T01010101010101030H01010bA0XI",
     "0V03020"]⟩,
  ⟨["pe", "closepunctuation"],
   ["X90XJ0V0ZrT010XwU0Yj90XN0F0pQ010U0XXU0101010101010YG0X0010101010iK010101010101010101010Y0",
     "010X10XX50101010XC0101010jC0101010103010101021XpeU0cP0T01010101010101030H01010bA0XJ0V0202",
     "0"]⟩,
  ⟨["pi", "initialpunctuation"], ["bB0dxC02120P0Zk80104020F030"]⟩,
  ⟨["pf", "finalpunctuation"], ["bR0dwT030S0Zk80104020F030"]⟩,
  ⟨["po", "otherpunctuation"],
   ["X1212201011A131R0Y4050E170rU080kI5X90XM02020XC1K111D012YA3Z60XBDd92XMEV0e51A0aC0ZO0ZP0i60",
     "C0hF0YQ0A1b8E10ZG0YA441ZF5bB0p48u50ZS2Y71aT212X5513fP1cO1a0615b01A6S2ZS3XR4XU1Y07B0w21878",
     "823223A1019ZaQ311ZG0aF1422028111021A41923101C22jC2XP0bT0zW21eD2Z30A0ZJ5hS3YM1X8210XH1XF0Z",
     "1CG1ZS3ZU1G1dP0qn4620M0K1233213726011aL212201011A131R0X4021iQ2qS0XG0iU0t70c70V0eG8X60ZG6Y",
     "26YP3vJ0a44XC3bT6ZD113ZU3XG1YF340D012YO5ZB0fA111ZI4A110Z80dQMZ92SCYC0a22dS0e82aR0YS7YJ214",
     "YT9cN0YV4XA1q51YACbF0XZG4YxS1kpR1a50Y1480n82f73g70pbS0dl74YxJ0wU1"]⟩,
  ⟨["sm", "mathsymbol"],
   ["XB0G2XT010XD040X50V0tU0mF2cnR0D0X72D2aB0X7460Y445140202070V12010VeBX01YQ0UOX85kL090XM7ZF0",
     "gG42UAFe0a2MXU4V2e1XGK25Xp+S0vO012b40G2XT010a3063Zj11Xmh00X+G0P0V0P0V0P0V0P0V0P0bvC1YkU8"]⟩,
  ⟨["sc", "currencysymbol"],
   ["X40ZT3Xd90ZR0lI1lI170dL0e70o50YiR0Yc4X1XXxM0rk30ZC0aQ0cR131d-M3XmuU0YjG0"]⟩,
  ⟨["sk", "modifiersymbol"],
   ["YU010Y70604030m93CD56101GZL0E1Xe20bvK012B2D2D2D1aaS1zp3M91Z71+G0E1qY6GxR010b20XzWN4"]⟩,
  ⟨["so", "othersymbol"],
   ["b60204010+H0eA1ZV1cE0A0J1dN0m30hL0a2510a40cF0X90i72F01225K01010a57151153c51tG9sJ0sI0aTX1h",
     "1998Xi311311A0116510101040B1E01110XQ194231111161U21101UeC74J262YG1TPX76Y7MAYHYDMbM181XL8Z",
     "E1dNXCXBY0dVm0XFL16X62a9d55h51XEP1YOCcLQF40D1C0L161gG149X0X590GUBT80FVAX6FfVck0XVrqGXMx13",
     "A110nT2qg9FhDFY01XM7XD2l403041D1fP8XPG221C30XFXCXpQ1oF0XW87YZ60YaL74GowA350qgM0Zx3dFA23jJ",
     "6MFFZ0ZJXSdLAX62XR52M17T4XSLY130bQYMXb9lVXN3XI71D11Xs80YwS0a10sHXB4Z3CE2E1E1X4Nb0XOSDXB48",
     "71E5aQdQ5sO3G3C3cP6B40FB4XN896X78T2B41XUgN8D2C3A3XO104F2B497aI1YRA0"]⟩,
  ⟨["zs", "spaceseparator"], ["X00ZV0bkV0YhVAX40XF0Zz00"]⟩,
  ⟨["zl", "lineseparator"], ["eX80"]⟩,
  ⟨["zp", "paragraphseparator"], ["eX90"]⟩,
  ⟨["cc", "control", "cntrl"], ["0VYVX0"]⟩,
  ⟨["cf", "format"], ["bD0XgI5M0c00XH0i01YG0ZvB0X-S4Q4XH419XtqF0dP2ac10F0ex2FXYZ03bcF7uhq60UYV"]⟩,
  ⟨["co", "privateuse"], ["XuW0cdVyXu0X--T2X--T"]⟩,
  ⟨["cn", "unassigned"],
   ["xO1637010K0iD0X61XI130XN7R36AeE0XS1Z5DXR1XH1F0S110B4X24dD08121M0701241912147132051P130632",
     "1M07020202110532132164016H9309030M0702051A030311E41C670308121M0702051912136332051I9206230",
     "422010222232C3523041151DL4D030N0G190304620302141A6M030N0A051903046243041A03BD030XJ03063G1",
     "Q030I2O090117213601085A13BXQ3TX4201050O010N1501070A14VY80X43X70X40F0DX4c601411hP041701041",
     "X9041X1041701041F0XP041Y31X02Q5YM161qT2YP6M8O8KBD0302BYU1A5A5Q5YP6XB4Y69V0C3C312XA15AXC3Q",
     "5B2XU1Y10T1B5A5E1XE1CJYD0b67XS2F2XU4XB1B7XB4mM161X616180101010V1XL0F0E160J13090Z50C1R0D2X",
     "2DX1EaC3qQLBKXuK1hU4XD01411XO62DO87070707070707070ZUX1Q0YPBcMPYG0YM1Z74XB0YU0YM8XG0ypD2XN",
     "8gSJbO7cTJXS2A5XO7Y67C5ZKAU2YE0B3X10XN8E1A1Z7NS96161687070XS3ZU1A5gz4BN3XHYW3cpE1ZAX57B54",
     "Q050102020qAVXA5XJ0J04350a7110bU261616132707951C0Q0J020F1EX1ZR433XD2YO0D21XEXEa1T2XHES3X4",
     "8U4XB4U0X53EX9aU1A5X43X43X87XKAC0F07020B0F07022XKBfN8M98N60XA09Y46110XC02211N0Y879XFJ024X",
     "12R4RX5XO3K1XI0248030T133A696Y0VX73C8XM2T1R4Q64B7YFY9XMXJCXJ6XE7A5X62T72cFV0XA0312F679X0X",
     "E7XALQX5SJN8YE3X48Y4911P6A5XL0I7X78Z00KAI0XFXT701040F0B5XR4A5408121M0702050A1213115147172",
     "5AA01110X60A0111040A0272SYS05TY87Ab5XM1X6X1Y5AA5DIXQ5A5KRR1F3NbOXSZ3YJB81118020U021C8AY58",
     "1XE1BQY87YJCY96AYL8YNX2DA590XD0E9T2X01M0EY87020XC2102097A56020X502066A5XC3AdLP6H0X92TYK1E",
     "XICyRZ5ZF05Ac4YoBZ3CXYM9ZyR4o7crOXQXs5nP6V0A3YH0A5U169Y69A070L4JjFXQc5YR4P1PXBYB3XP6HXV5A",
     "78dcMX8X0Z0ZJelS407020f3E1S311D47iCYe3ZB4D296A18ZwRdT2jK5NEHEXE1N8ZKXRdM9X71c2KY6ZPKBKBYN",
     "8Pa6YL0Y7021112140C01070Y10418070S040501270gK1f41rUE50FXYFV56cK70H1702054XUX01ZFXD2E1A32f",
     "VVGXQ41kFXAcLXB31bVV0M72cV704020F0c51GX8YC3A32uGY4YBXTc140R0201110A0401015131010103020111",
     "01010101020114070404010A0H43050HXJ2eDXC3Z4BF1F0F0X59bEXNTCXC3962D6aP+P2H2D2cQ5C31EC3XO7A5",
     "X87U1C32D9X6gO7E1D2B2XP013G1C3A6aJ0Z7XW4Xft0VaeU1bqE1dfHEpEYj1mUXl1awB4efAroy61TZ0ZVdGX-m",
     "FX--U1X--U1"]⟩]

/-- The groups of categories: their names, and the short names of their parts. -/
def categoryGroups : List (List String × List String) := [
  (["l", "letter"], ["lu", "ll", "lt", "lm", "lo"]),
  (["lc", "casedletter"], ["lu", "ll", "lt"]),
  (["m", "mark", "combiningmark"], ["mn", "mc", "me"]),
  (["n", "number"], ["nd", "nl", "no"]),
  (["p", "punctuation", "punct"], ["pc", "pd", "ps", "pe", "pi", "pf", "po"]),
  (["s", "symbol"], ["sm", "sc", "sk", "so"]),
  (["z", "separator"], ["zs", "zl", "zp"]),
  (["c", "other"], ["cc", "cf", "cn", "co"])]

/-- The code points of a category that carries a name of its own. -/
def singleCategory (name : String) : CodeSet :=
  ((categoryTable.find? (·.hasName name)).map (·.codes)).getD CodeSet.empty

/-- A general category or group of categories by its loose name. -/
def category? (name : String) : Option CodeSet :=
  if name = "any" then some CodeSet.all
  else if name = "ascii" then some (CodeSet.range 0 0x7F)
  else if name = "assigned" then some (singleCategory "cn").complement
  else match categoryGroups.find? (·.1.contains name) with
    | some (_, parts) => some (CodeSet.unions (parts.map singleCategory))
    | none => (categoryTable.find? (·.hasName name)).map (·.codes)

end Waymark.Unicode
