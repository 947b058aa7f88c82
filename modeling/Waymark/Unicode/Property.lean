/-
Binary properties of characters.

`propertyTable` holds the code points of the named properties.  A few properties
are what remains of another one after whole categories are taken away; they are
computed from it.  The last definitions are the classes that the rest of the
library asks for.
-/
import Waymark.Unicode.Category

namespace Waymark.Unicode

/-- The code points of each binary property, under its long and short names. -/
def propertyTable : List NamedSet := [
  ⟨["asciihexdigit", "ahex"], ["XG975Q5"]⟩,
  ⟨["alphabetic", "alpha"],
   ["Y1P6PXF0A0405M1U1k94BE47010YM0TH1123106012101J1YI1aA8b51X5206X8X7D101111108Q43TA5XN16EZ51",
     "74742A220GXFDZ4OX091405N2IJO7A5N16708X9AB366YB1F124EDI17212L16103337212110804114C1A042154",
     "12L16111111444121407310H5B218121L16111438121130F3L34217212L161114372121914114D0G115321331",
     "101131323B4432123060X8C121M1F37121281121123S317121M1914371212815213D2CC121X8271212105374M",
     "5121H3N181026851017I1DXP5660XJ110141N101I12241060E3X00XV71X34I4F1X3Y3XM1024GXVA32X510502X",
     "A1gC132610132X8132X0132610132E1XO132Y2X5FGYL253pB2G1P5YA3A7JBKCJCC1211CXJ2IE040Y3YO7XA5Y5",
     "AU1B48NT24BXB4PXMR4XU2JXI0N1B2XHXJ1E17XJX923AXB1AEXMM2AX32A5XA22X931511305bVJX1BeL252X525",
     "271010101U2XK1610321633254C5216ZK0D0GCZ5040291034601010131A235440HX8vDXJXuMd46331CX510502",
     "XN70GM96161616161616161VXF0kL2P874244YL621YP135XA1YTHVXGFm0cjVY0rqCY3XD2eC3FA1KXE573ZGX78",
     "2Z62YHKK1X0OXJCY310XC53012AX05X2DS3XI1BF0GFA41XM9DIM3Y41010O22F23B5252596161XA1D6ZQLgz3CM",
     "4XGee4hD2Z9X66C45B1C141011111ZBX1hAIXV2XLX8BZK41a6X4P6PBYO35252522X3B1P1I111E2DX2ZQY5XKeB",
     "S3XGXFVDT5XA5T2X34714XAaTIX34X34X78XJCA1E16111A1E16113XJCfM9LA7O51X918Y55201XB11302MAM9UY",
     "1I11ALAP6PX6XN61Y031157121SXAS3SX371RRXLALAIDHZEY8XNXIDXIDX7X2R305MdQX91131G5XI23SA08LXAH",
     "XEKRM9Y5XB4AXO90DONXIH38X2309XV1391A010X3H1X12063XU610131E197XON317212L161114372121306056",
     "S910201X519102013113010XCY11213K2UY12110bOXL26P5X2XU1030XRXL20Y7Q2DL6bPXOZ7XVV72027111T11",
     "2123YT72XD251011RXI29HY750IY8Z77YOX0V81XC1610XHT2L1DY96111XB3011121021O5111X4111310NXBe4M",
     "9G1X832ZF0YFyPZ6ZEHc3YoCZ0FXXFH5PZyQ5o6crPXEXsHnO7UHYEHTIXFG3VK5IjGXCcJXVX0O2OXCYA4XO7GY0",
     "110C69dcLX9VZ1ZIelT316111f2F0T220E38iBYe4ZA5C387940bx1YK1Y6112021231B10161Y01327161R13141",
     "0361gJ2O1O1U1O1U1O1U1O1U1O17XvKU65cL61G2611145XTX10ZGXCA6G0g1TIXBl4Rd4T20cFU1L81d0613111E",
     "1c4XRY33030XbK31Q1110201913101060401010121110201010101011102316131310191G52141GpKP6P6PZpM",
     "XfsVX0aeT2bqD2dfGFpDYj2mTXl2awA5ef9"]⟩,
  ⟨["bidicontrol", "bidic"], ["XmS0clH1Q4XN3"]⟩,
  ⟨["bidimirrored", "bidim"],
   ["X81I010S010T010XD0F0ZpU3XwT1YiS1A1XM1E1bH0c033530313313101048501H539110171V2350912I519421",
     "4N2F83K171XXTDYA023111253523DiJL251D807530441124401221A521CI13201020135162O1B14311214XA27",
     "1X750103452403410e00m333111E129XB7jB927XpnT551b21I010S010T0101111XrxN0XP0XP0XP0XP0"]⟩,
  ⟨["caseignorable", "ci"],
   ["X7060B0X3010Y7040104021lNbV41409110dR6cF050XHXC10111110XC0B5AA10X30AKG0Z571913X1010UQYRAX",
     "QA4020ONXB2XC07158X9XPXN010474036A1D0F0XQ04380K1Q021XP041412230U130B1XP0441140K1M510XQ020",
     "138071B1U0XT0C0XI030XN012521371B1T0XQ0206051K1S1XP14380K1T0Y807210YQ026B8Z20289016Y91R010",
     "10XND14115A1X390Z63151121P142G3D02160F0YU0p02zI2T1U1U1Y0116802A3050XD4XJ0Y11X20ZM2419062c",
     "R120XQ0161010276920X708XD2BK3XG0141050X88C1X032112XO0113012XQ721Y05YI21C16406031XIXUD0X2Z",
     "4jT012B2D2D2D1C481A02024XH41910D0GCXJX0YyB1ZH2ZT0F0Z0VXF0kL0X433450YT5YT2xuM0Xd25eE0Z2319",
     "10S3YG1EX1YE0N2Z6331803040P150aN1QHD0X67PAXE2XG02321H0L1Y252121C080X30B0XJ012215110R0E151",
     "10Z4492ZP02040pvG0aJGnTF30CFX2020b907060B0X3010XF0XD1Y30L2m10d20aL4XW551X918o621153X8240b",
     "51nT3X60Q410fR1O0XK5Y6AXH3ZR0XMEX9021A2XH3212040A0XI2X4417XU0C1XK8A320YV220116020aT037L1X",
     "P130X5634Y65D01010E1YL72210N0YK5104111dE36111R1YL72011ZA0102510Z50102314e3811e011040aG321",
     "40X09X8523809522XEC11c601210c961510YIL261111ZQ530111610Y813010Y10eP1B1XK45010N0bcLG6Ehc8B",
     "32Yk04XR693lS2X81l20XVGY0111D1l-S31611ZaU113aoSXD2Mn029F26U3aK2XzRXM4XH80E0M41EXgG61G2611",
     "145XTX10b0DhG0XT3lR4dU1dJ020715090kG6ZD7YrF4uZW10UYVa0dF"]⟩,
  ⟨["cased"],
   ["Y1P6PXF0A0405M1U1c2134cF2X271U4Z00XA32123106012101J1YI1aA8b51X59X8YuNX510502XA13r0YL25Ya2",
     "A5XA22Y0bVY0eL252X525271010101U2XK1610321633254C5216ZK0D0GCZ5040291034601010131540235440H",
     "V31vHXJXuMd46331CX51050+eIXDITa4Z5331YCK512vLXA1D6YFpw06C4XW9P6PXb5YFZ0X34X3ZKA1E16111A1E",
     "1611k30221X918Xc5XIDXIYTLALYuQXVrh0XVX0O2OvfCYK1Y6112021231B10161Y01327161R131410361gJ2O1",
     "O1U1O1U1O1U1O1U1O17XvK91J65e5XTYaIY3X-CP6P6P"]⟩,
  ⟨["changeswhencasefolded", "cwcf"],
   ["Y1PYQ0AM17X001010101010101010101010101010101010101010101010101010102010101010101010111010",
     "10101010101010101010101010101010101010101110101011101112231112311110101110201112101130711",
     "11110101010101010102010101010101010102110121010101010101010101010101010101010101010101010",
     "1010101010107111201310101010dM0XA0103080601210111G18M0C2311010101010101010101010101121101",
     "12XIXG01010101010101010101010101010101090101010101010101010101010101010101010101010101010",
     "10101110101010101020101010101010101010101010101010101010101010101010101010101010101010101",
     "01010101010101010101010102X5XG0YuOX51050vA5Ya296XA22g001010101010101010101010101010101010",
     "10101010101010101010101010101010101010101010101010101010101010101010101010101010101010101",
     "01010101010101010101010105120101010101010101010101010101010101010101010101010101010101010",
     "1010101010101010101010101010101010109785A78785B010101087GXF22255225B3C45225f903160XDFJ0vI",
     "PXvGXFXG012201010131020821010101010101010101010101010101010101010101010101010101010101010",
     "1010101010101010101010101010101010801040+gD010101010101010101010101010101010101010101010J",
     "010101010101010101010101010a7010101010101030101010101010101010101010101010101010101010101",
     "010101010101010A0101110101010401020103010101010101010101014141010101010101013101110101010",
     "10101010O0xQYFpw06C4XW9PXc5X7a8X3aSA1E1611XtAXIaTLYvQVri0VY0O+o7X1"]⟩,
  ⟨["changeswhencasemapped", "cwcm"],
   ["Y1P6PXQ0AM1U1XV1YJ1R2D21104YS1H6Q1110113113142011207020113550A1b60XA32132106012101J1XE3X0",
     "141a48b51X5AX6YuOX510502XA22r0YL25Ya2A5XA22bP030G0ZHaR201ZL252X525271010101U2XK1610321633",
     "254C5216f903160R0HV31vHXJXuMZG11117Z57331CX51050+eIXDIRa6D2XT9E32241O1XCO1wS0SYFpw06C4XW9",
     "P6PXb5YFZ0X34X3ZKA1E16111A1E1611Xs3XIDXIYTLALYuQXVrh0XVX0O2O+nCY3"]⟩,
  ⟨["changeswhenlowercased", "cwl"],
   ["Y1PZ5M16X10101010101010101010101010101010101010101010101010101010201010101010101020101010",
     "10101010101010101010101010101010101010111010311011122311123111101011102011121011307111111",
     "01010101010101020101010101010101021101210101010101010101010101010101010101010101010101010",
     "101010107111201310101010f10103080601210111G18X308010101010101010101010105020112XIXG010101",
     "01010101010101010101010101090101010101010101010101010101010101010101010101010101011101010",
     "10101020101010101010101010101010101010101010101010101010101010101010101010101010101010101",
     "01010101010102X5Yw9X51050sIYLYaJ06XA22g00101010101010101010101010101010101010101010101010",
     "10101010101010101010101010101010101010101010101010101010101010101010101010101010101010101",
     "01010101010901010101010101010101010101010101010101010101010101010101010101010101010101010",
     "101010101010101010109785A78785B010101087O7878784B4B3C4B4f903160XDFJ0vIPXvGXFXG01220101013",
     "10208210101010101010101010101010101010101010101010101010101010101010101010101010101010101",
     "010101010101010801040+gD010101010101010101010101010101010101010101010J0101010101010101010",
     "10101010a7010101010101030101010101010101010101010101010101010101010101010101010101010A010",
     "111010101040102010301010101010101010101414101010101010101310111010101010101010O0rvBPXc5X7",
     "a8X3aSA1E1611XtAXIaTLYvQVri0VY0O+o7X1"]⟩,
  ⟨["changeswhentitlecased", "cwt"],
   ["Z1PXQ0X9N17101010101010101010101010101010101010101010101010101010102010101010101011101010",
     "10101010101010101010101010101010101010102010122010203050203220201010204020301020301040111",
     "11010101010101010111010101010101010121010301010101010101010101010101010101010101030101010",
     "101010101080211040101010151110113113142011207020113550A1b60XB0103032I0RX21132101010101010",
     "101010101014102020XKXF1010101010101010101010101010101010901010101010101010101010101010101",
     "01010101010101010101020101010101011101010101010101010101010101010101010101010101010101010",
     "101010101010101010101010101010101010101010XHX6ZpG5Ya2810dE030G0ZI010101010101010101010101",
     "01010101010101010101010101010101010101010101010101010101010101010101010101010101010101010",
     "10101010101010101010101010101010101650101010101010101010101010101010101010101010101010101",
     "010101010101010101010101010101010101010101885A78785A7878D2787878411603211832187A211gM0X1F",
     "40wBPXw6XF10311010106020A0101010101010101010101010101010101010101010101010101010101010101",
     "01010101010101010101010101010101010801040CX51050+eJ01010101010101010101010101010101010101",
     "0101010J010101010101010101010101010a70101010101010301010101010101010101010101010101010101",
     "01010101010101010101010A010201010101040401120101010101010101010B0101010101010104010201010",
     "1010101010Q0wS0SYFpw06C4XX9PXcDX7a8X3aRA1E1611Xu3XIZTLYvQVri0VXRO+oEX1"]⟩,
  ⟨["changeswhenuppercased", "cwu"],
   ["Z1PXQ0X9N17101010101010101010101010101010101010101010101010101010102010101010101011101010",
     "10101010101010101010101010101010101010102010122010203050203220201010204020301020301051111",
     "11010101010101011101010101010101011111030101010101010101010101010101010101010103010101010",
     "1010101080211040101010151110113113142011207020113550A1b60XB0103032I0RX2113210101010101010",
     "1010101014102020XKXF101010101010101010101010101010101090101010101010101010101010101010101",
     "01010101010101010102010101010101110101010101010101010101010101010101010101010101010101010",
     "1010101010101010101010101010101010101010XHX6Yw8XA22tO5Ya2810dE030G0ZI01010101010101010101",
     "01010101010101010101010101010101010101010101010101010101010101010101010101010101010101010",
     "10101010101010101010101010101010101010165010101010101010101010101010101010101010101010101",
     "0101010101010101010101010101010101010101010101885A78785A7878D2XK114010321140332187A21140g",
     "H0X1F40wBPXw6XF10311010106020A01010101010101010101010101010101010101010101010101010101010",
     "1010101010101010101010101010101010101010801040CX51050+eJ010101010101010101010101010101010",
     "101010101010J010101010101010101010101010a701010101010103010101010101010101010101010101010",
     "1010101010101010101010101010A010201010101040401120101010101010101010B01010101010101040102",
     "010101010101010Q0wS0SYFpw06C4XX9PXcDX7a8X3aRA1E1611Xu3XIZTLYvQVri0VXRO+oEX1"]⟩,
  ⟨["dash"], ["XD0XgS0XJ0Zo10XW50YW95XT0X70F0i60ZW4020V140S0jU0J0ZF0XpiG1X50A0b90Zp00fU0"]⟩,
  ⟨["defaultignorablecodepoint", "di"],
   ["bD0r10sC0Yw21XoJ1YL4X-R4Q4XHFadK0XpaRFdF0b00YF8Xlb73bcF7uhq5Z-V"]⟩,
  ⟨["deprecated", "dep"], ["g90Xf90Ye3010YX91Yc55rP1xtcM0"]⟩,
  ⟨["diacritic", "dia"],
   ["YU010Y70604021lNaU1755H14091dT4cH0XNXC10111110a3741a614132Y3QYRAXQAX21ZU7X99GRXT0G033S0YA",
     "0G0ZE0G0ZE0G0XF2XS0G070ZN0ZE0G0ZE0G0ZD1G0ZS0ZF0C510ZB0D4YB1R0101041Y2211XU0ZG011X8144P610",
     "A1s12zK1U0aKA90gR2f40K720XGE2A3E2BY80F0X68XM1XQ0B1Y21Y05YIO406022XIXUXGX35BX5AjT012B2D2D2",
     "D1ZdG2fT0lQ5Z93YV0zhI0C110S1YI1EX1Z62Z6061C0X50aN0RHXP3X40YV0C0X40aL2Y13XJ0Z4492a01pvG0u1",
     "FeE010XF0XD1Y30tS0XaV51X918pT240b51nR5X60Q4iC022Y6AXH3c00X90Y81ZO1XU0YC092Z81bI1YG1G0O634",
     "YP211D1YV030ZR1dR1ZU0ZM1ZJ0eD1e2140aS0YJ0I0YH0j50e2011YH0Y10h71N0bdCEhcP0Yk04XR6nK1n2GYG1",
     "l-U31611du1XD2Mn02358726U3Zq2XTc26hN0XT3tU1t06ZD212"]⟩,
  ⟨["emoji"],
   ["X306059ZF040dyD0C0cO0M0YQ5F1hF1C0b60PA42c70d71A090XQ314902021204020112030318250105BB12011",
     "10I021I5101131502141B15120511011K155132040202510201010603060A1F02040104210B1XG290E0E0hK1k",
     "F2J1XJ040XcQ0C0oP010ZlhA0cA0b01C1E029YBP11N0K028L1bEX12ZF21122YI221e61XUB51N7127C0232041D",
     "120819052C28220104060306YLXGY557233930113029d3B40eRXE191bOZGC3A3XO104F2B49"]⟩,
  ⟨["emojicomponent", "ecomp"], ["X306059d+J0cL0XtfB0Xy+MPlR4XjG3uXpCYV"]⟩,
  ⟨["emojimodifier", "emod"], ["Zy-R4"]⟩,
  ⟨["emojimodifierbase", "ebase"],
   ["fmT0cR0G3ZpZN0XS22022ZL12ALI3042127010O0c9140L041bE234YJ0G290B0nV02087609922XO0XT11110H21",
     "Cd52XA8"]⟩,
  ⟨["emojipresentation", "epres"],
   ["euQ1cD33020m91L1XIBXB0J0D081H1518050L0711040207041S0X30104210XT2O0E0wR1XJ040ZnbE0cA0bU029",
     "YBP10O0K02412L1bEX0C81Y51LCXA44CG303Y6101bQ2XUD31NI0Q1D0YMYKXGY560322333B178d3B40eRXE191b",
     "OZGC3A3XO104F2B49"]⟩,
  ⟨["extendedpictographic", "extpict"],
   ["b9040dyD0C0cO0M0YQ5F1hF1C0b60PA42c70d71A090XQ314902021204020112030318250105BB1201110I021I",
     "5101131502141B15120511011K155132040202510201010603060A1F02040104210B1XG290E0E0hK1kF2J1XJ0",
     "40XcQ0C0oP010ZlhA0X73Z4BF1F0E1X59ZG1C1E029JXNREA0K028139M6bR2ZF21122YI22135dT1XUB51N7127C",
     "0232041D120819052C28220104060306YLXGY5572G30152CcQX5C3XO7A5X87U1C32D9X6CXE191bOYO7EaHe0-T"]⟩,
  ⟨["extender", "ext"],
   ["bN0mO1xE0jP0pM0a90YP0tG0ZV0Yg30XO0p30iE0Y40ay90XB4Z71YT2xuM0XlM0+20M0a90ZC0L1rZR0YWG1XkB0",
     "R040Xc70f50ZK1lI2XcF0w00ph81XaS110E1yg81XbH0wK2"]⟩,
  ⟨["graphemebase", "grbase"],
   ["X0YUX1C1oHZG72546101J1cV7b51X52XH22XE01020209Q45H9B01XDLF1Z48061204V201TTYOB0EXA963N40903",
     "07E1O501A5VGX9XPXM10138312792S1117212L1610333011612110D1124N5015412L1611111142O310792210C",
     "018121L16111433801130F14B708117212L16111430206121F1124HB015321331101131323B5011321230LK62",
     "17121M1F3033J2112149791A121M1914312011N2114912EA121X8201152121142194P211H3N18102691667922",
     "CXF11B78CX5110141N1019119024109923X0N2Q10101D1X3I05024XH7151CX5XC4060212O233F4C11251E1X71",
     "0502hO132610132X8132X0132610132E1XO132Y25S3P6YL252qS3YO7HDI319HEC12FXJ207711B839696A596YO",
     "742X1105Y5AU43224115703X924BXB4P6A3XO213XN10901185D9696DYMXFA3371S9B2V416XN102210DXF815E3",
     "XT5XA2AB0D0731512205bVY0eL252X525271010101U2XK1E1D251I22181A5N7XGG12Q1C3X1XUaB4qPMALXuJ2h",
     "O315XC10502XN71FM9616161616161616X1YTX2P1YOCcLQXP6F1YL4Z45XA1YT1YL9XF1ypC3XM9gRKXE40AV2YF",
     "258cSKG12131O24496XN8Y3ABOC1X58OB0CT6XF1141211C1A461O1X86121B21710292V1XI1031242010OG27B5",
     "252596161XR4ZK1113396gz3CM4XGee4hD2Z9X66C4501N141011111q9X0FG9MX21I13441a64aS2U3525252236",
     "16D12B1P1I111E2DX2ZQ524XC3YN1C30XFXCa3S3XGGQ4X39T5X5AT1X44DXAaT296X34X34X78XJBB1E16111A1E",
     "16113XJCfM9LA7O51X918Y55201XB11302M1Y788XGI115X03Q5QX6XN4J2XEF3121SA8787XVX0X46B9XL3S2Q5P",
     "73C6YGY8XNXIDXI7X9C96X58N81cGU1X93021G588X7X78LB8MH43X6RKM901XLF64T1120CXG412113EO799X350",
     "9H8X212BXJ9017411F1JBH1R314511XV610131E1A6XE12D98117212L161114301013212130C6S910201X51011",
     "F011301211X7XN81301K1012UXF11601110202389b6XE1163202QX4XI811023B96CJXA101181696JSQ3011409",
     "MbPXE9020Z4YIC72027111N1411631299Y672X98313R0AX7614790613XDD028DY879YN03010YOX1E9681X5E01",
     "5AS3VP07020YB6111X5L09965111X4411010796XB49dMI239E1X3813MYM0FXHDyQZ6ZE14Bc3YoCZ2DXXFH5PZy",
     "Q5o6crPTC239Xs6nO7U194YG196T70AXF7EA9161K5IjGXPc6YQ5O2OXCYA5XNBCY03E49dcLX9VZ1ZIelT316111",
     "f2F0T220E38iBYe4ZA5C38792020Zx0dS3jJ6MFGYVZJXSdLAX62XR52M17T4XSLY130ZQJCJCYM9Oa7YK1Y61120",
     "21231B10161Y01327161R131410361gJ2f32nHXN3XI71D16XZKU65e5XTaIXCA62941g0TIXB4950kGR49cMT2A4",
     "0c0U1211162491d0613111E1c428XGY3704941uHY3YCXSc231Q11102019131010604010101211102010101010",
     "11102316131310191G52141GXK1eEXB4Z3CE2E1E1X4AbDXOSDXB4871E5aQ+O3G3C3cP6B40FB4XN896X78T2B41",
     "E8X7gN8D2C3A3XO104F2B497aI1Z6XW5XfsVX0aeT2bqD2dfGFpDYj2mTXl2awA5ef9"]⟩,
  ⟨["graphemeextend", "grext"],
   ["u0ZFeJ6e7XC10111110Y8AXGKG0Z56252113X30UQYRAXQ890O3181214XB2XR8XAN1VXN010474036A1T0XQ0102",
     "38090A1Q021XP041412230U130B1XP0441140K1M510XQ011138072A1U0XR010C090X8030XN012521371B1T0XQ",
     "02110321371B1S1XP110238090A1T0Y8040221080YH026C7Z2028B6Y91R01010XND14115A1X390Z63151121P1",
     "42G3D02160F0rV2zI3S2T1U1Y0116802A90XD210ZL1X20ZM2419062cR120XQ0161010276920XGXD2BK3XG942X",
     "68C1X0325XO0113014XO721aO21C16406031c6XVmC0c3X0Y-U2aD0Z0VnA5Z91zkK319X01YG1eG03040P150aN1",
     "QHD0X67PA10XC2XG0232120X40Y352121C080XF0XJ012215110XA180dE02040pvG0t1FGFhE1oT0d20aL4Xq621",
     "153X8240b51nT3Y14fT1YD5Y6AXH3ZR0XMEX9021A2XH32170XT2X4417XU0C1XK8108320YV2236020aT037L1XP",
     "11010C090E634Y30251020124210E1YL72210N0YH02510201111dB0236111R1YL72011ZA01027Z50102314e38",
     "11dL0A340aG32140X09X8523809522XEC11c601210c961510YIL261111ZQ530111610Y813010gR1B1XK452N0b",
     "d506Ehc8B32Yk04XR6XWO0XV3YH0B1pbB1ap1XD2MmU4358726U3aK2XzRXM4XH80E0M41EXgG61G261114Z40b06",
     "hN0XT3lS3dU1dJ0207150kQ6ZD6ubsLYVa0dF"]⟩,
  ⟨["graphemelink", "grlink"],
   ["YgD0ZV0ZV0ZV0ZV0ZV0ZV0ZV0ZD1G0ZS0ZF0ZV0c90bK1XsP1U0aT0qD0d30Z51Y61aiB0+q60X50aN0aE0ZC0fL0",
     "dM0toH0Xm60X90E0XP0ZP1aB0ZK0bK0Z20dK0ZV0dS0ZV0ZM0ZK0eD0e31b10YJ0I0YH0j50e41YH0j91"]⟩,
  ⟨["hexdigit", "hex"], ["XG975Q5X-r9975Q5"]⟩,
  ⟨["hyphen"], ["XD0ZV0XcS0apR0YW91Zm50t30Xph70b90YN0"]⟩,
  ⟨["idsbinaryoperator", "idsb"], ["h-G129lH0"]⟩,
  ⟨["idstrinaryoperator", "idst"], ["h-I1"]⟩,
  ⟨["idsunaryoperator", "idsu"], ["h-U1"]⟩,
  ⟨["idcompatmathcontinue"], ["bI150dzM03A1EhJ040M0Zjb20P0V0P0V0P0V0P0V0P0"]⟩,
  ⟨["idcompatmathstart"], ["em2040M0Zjb20P0V0P0V0P0V0P0V0P0"]⟩,
  ⟨["idcontinue", "idc"],
   ["XG97P401PXF0A010205M1U1k94BE47010HZK11231064101J1YI1aA142b51X5206X88XC101111108Q43TA5Y94Z",
     "517291I20GXQ2Z4EXL40202XDIR4A5N167YA1a0291I17212L1610332821238041142BA0102215412L16111111",
     "201441223073107FB218121L16111429121220F329961217212L1611142821227241142910G11532133110113",
     "1323B4432132060E9GC121M1F2812137112112329G317121M19142812137152132912CC121XI1214537429A51",
     "21H3N181026304510176921DXP5E19X7110141N101M2410161923X00N169B01010491X34J1H1X390XPY96YD2X",
     "510502XA1gC132610132X8132X0132610132E1XO132Y22298EFGYL253pB2G1P5YA3A7L9LBJCC1211CYJ304129",
     "X121A6YO7XA5Y5AU1B4BAX724BXB4P6AX5R4XU1S2A69D08D1U2BKYC39H8CZJCXN893XG2A5XA22G21X65mL252X",
     "525271010101U2XK1610321633254C5216F1XH1J0S0D0GCXJC403BH0402910256010101F235440HX8YpNd468C",
     "X510502XN70FN96161616161616161Vm52PE14244YL261YU5XA1YTHVXGFm0cjVY0rqCY3XD2eC3RKXF491ZIX58",
     "2Z62YHKXM40JXJCY5A96N301XG2X3CS3Y0EA6U1XM9D296M3Y8O22F24A5252596161XA1D6ZQ11296gz3CM4XGee",
     "4hD2Z9X66C45B1C141011111ZBX1hAIXV2XLX8B4FGF31O2X041a6J97P401PAYP35252522X3B1P1I111E2DX2ZQ",
     "Y5XKa80a2S3XGF0VVDT5XA5T2X34714XAaT296X34X34X78XJCA1E16111A1E16113XJCfM9LA7O51X918Y55201X",
     "B11302MAM9UY1I11ALAP6PX6XN61Y031157121S2240X0S3SX371TPXLALAIDHZEY8XNXIDXIDX7896X5341MdQX9",
     "1131G5XIX2A08X0VLXAKRM9Y6VF9XR70DO796XK19438X3209Y4431C10X3H1X463XU610131E197XQ596317212L",
     "1611141921222060562634B910201X51910201317D1TYA5943UY51089b6XL28N5X2Y030B9X6XO796JSQ2E4966",
     "bPXQZ5Y9L72027111T1128C9Y672XD2711RXU808Y930IY8Z77YOX0F9681XC18F9OT2L1DY96111XB3011188965",
     "111X41115796XB49dMM9G1X834DAYL0YFyPZ6ZEHc3YoCZ0FXXFGLAZyQ5o6crPXPXs6nO7U196YE196T24BXM93C",
     "99K5IjGXC39c6XVX0O2OXCYA4XO7GY0111B69dcLX9VZ1ZIelT316111f2F0T220E38iBYe4ZA5C387931aYH9m6X",
     "D2MmU4358726U3aK2jRYK1Y6112021231B10161Y01327161R131410361gJ2O1O1U1O1U1O1U1O1U1O172XHm0XM",
     "4XH80E0M41EXYGU65cL61G2611145XTX10ZGXC3D2940g1UHXPkMX9cMXAc5U1L81d0613111E1c4B6X9YB49Xb63",
     "1Q1110201913101060401010121110201010101011102316131310191G52141GZfK9XW6XfsVX0aeT2bqD2dfGF",
     "pDYj2mTXl2awA5ef9rpa6dF"]⟩,
  ⟨["idstart", "ids"],
   ["Y1P6PXF0A0405M1U1k94BE47010a141123106012101J1YI1aA8b51X5206X8Y7Q43XDXAX311Z210F171A220G01",
     "TTYOB0OX091405L409030NO7A5N16GX9XQXL30I079FF47212L16103330G0D112E1A085412L16111111V310J2G",
     "8121L16111430I0F1N0B7212L16111430U112F0H015321331101131323BM0XK7121M1F30Q21121U047121M191",
     "430U211F1H8121X820G05282O55H3N181026XQXF11C6XQ110141N101911902410L3X00XV71X3R4ZJXAK0G5433",
     "031724CC0HX510502XA1gC132610132X8132X0132610132E1XO132Y2X5FGYL253pB2G1P5YA3A7HDIEHEC12FXJ",
     "X3040Y3YO7X8105Y5AUXHT24BXB4PXMM9XKYI0YTXEH7XMTD1AXBQX3X92AX32A5XA22X931511305bVY0eL252X5",
     "25271010101U2XK1610321633254C5216ZK0D0GCZ50402910256010101F235440HX8YpNd46331CX510502XN70",
     "GM9616161616161616n62P874244YL441YP135XA1YTHVXGFm0cjVY0rqCY3XD2eC3FA1KXEGU2YFX782Z62YHKG1",
     "2131MTXJEXHXU53011BRAMPS7XES0G419A41X8N217KM303XH1031242010O22A72C5252596161XA1D6ZITgz3CM",
     "4XGee4hD2Z9X66C450191C141011111ZBX1hAIXV2XLX8BZK41a6X4P6PBYO35252522X3B1P1I111E2DX2ZQY5XK",
     "eBS3XGXFVDT5X5AT2X34714XAaTIX34X34X78XJCA1E16111A1E16113XJCfM9LA7O51X918Y55201XB11302MAM9",
     "UY1I11ALAP6PX6XN61Y00F3121SXAS3SX371RRXLALAIDHZEY8XNXIDXIDX3X6R9MdQX961G5XOSA08LXAHXEKRMC",
     "XKXP120DXCX0OQX3T0208X230CXFE3L010X3H1OJ1XV610131E197XEX67212L16111430I0C4U910201X510P010",
     "XCXKI3K2UXFK110bOXEX93X4XFK0XRXAD0Y7QX56bPXBZKXVV72027111NF010YU72X6G010S0AX770L0BXDJ0IY8",
     "c7X0V81X4H0XHTZG6111X5L0P5111VE0NXBe4IF01C1X1ZS0YFyPZ6ZEHc3YoCZ0FXXFH5PZyQ5o6crPTXt2nO7UH",
     "YEHTIXFG3VK5IjGXCcJXVX0O2OXCYA50Y2CY0110E49dcLX9VZ1ZIelT316111f2F0T220E38iBYe4ZA5C3879bx6",
     "YK1Y6112021231B10161Y01327161R131410361gJ2O1O1U1O1U1O1U1O1U1O17XvKU65e5XTaIXCA6G0g1TIXBl4",
     "Rd4T20cFU1211162491d0613111E1c4XRY370XbK31Q1110201913101060401010121110201010101011102316",
     "131310191G52141Gag4XfsVX0aeT2bqD2dfGFpDYj2mTXl2awA5ef9"]⟩,
  ⟨["ideographic", "ideo"],
   ["iW61P8E2+5cjVY0qlVse0hD2Z9zeA0D49dcLX9VZ1ZIexTiBpe4XfsVX0aeT2bqD2dfGFpDYj2mTXl2awA5ef9"]⟩,
  ⟨["joincontrol", "joinc"], ["eWC1"]⟩,
  ⟨["logicalorderexception", "loe"], ["Zo04ZR4YtG220XadQ12011"]⟩,
  ⟨["lowercase", "lower"],
   ["Z1PXF0A040X4N1710101010101010101010101010101010101010101010101010101011101010101010101110",
     "10101010101010101010101010101010101010101010201012201020314020322020101020111020301021226",
     "02020101010101010101110101010101010101120103010101010101010101010101010101010101010101010",
     "10101010101016202110401010101Y42X271U4Z00XB0103023I0RX21132101010101010101010101014102021",
     "XJXF1010101010101010101010101010101010901010101010101010101010101010101010101010101010101",
     "01020101010101011101010101010101010101010101010101010101010101010101010101010101010101010",
     "101010101010101010101010XGX8Yw7XA13tO5Ya2810ZLbVY1010101010101010101010101010101010101010",
     "10101010101010101010101010101010101010101010101010101010101010101010101010101010101010101",
     "01010101010101010101810101010101010101010101010101010101010101010101010101010101010101010",
     "10101010101010101010101010101885A78785A7878D2787878411603211832187A211ZP0D0GCZD03130R0404",
     "0218340X1F40wBPXw6XF103110101040111730101010101010101010101010101010101010101010101010101",
     "01010101010101010101010101010101010101010101011701040CX51050+eJ01010101010101010101010101",
     "0101010101010101010J010101010101010101010101012a50101010101012101010101010101010101010101",
     "01010101010101010101010101010101019101020101010104010201210101010101010101010505010101010",
     "10101040102010101010101010L31012vLXA1D6YFpw06C4XX9PXcDX7a8X3aRA1E1611k30221X918Xe5XIZTLYv",
     "QVri0VXROvg6PQ61HQPQ310161AQPQPQPQPQPQPQPQPQRSO15QO15QO15QO15QO1510XvK91J65e5XTYbKX1"]⟩,
  ⟨["math"],
   ["XB0G2V0T010XD040X50V0sO220Q122mF2cmD0R2B030D0E3L4B4Y1C403144I04029102560312112153D10Y4N15",
     "11414V1061EeB83K1YQ0UQ10O0B6jT1C945412134E01025B751XP010T392gGXVe0lVXGK25Xp+S0vN510b20G2T",
     "010T010a3063Zj11Xmh00XeFYK1Y6112021231B10161Y01327161R131410361gJ2f32XHbm031Q111020191310",
     "1060401010121110201010101011102316131310191G52141GXK1YkU8"]⟩,
  ⟨["modifiercombiningmark", "mcm"], ["XoK120a306031l111230V0"]⟩,
  ⟨["noncharactercodepoint", "nchar"],
   ["X-kGVmE1X--U1X--U1X--U1X--U1X--U1X--U1X--U1X--U1X--U1X--U1X--U1X--U1X--U1X--U1X--U1X--U1"]⟩,
  ⟨["patternsyntax", "patsyn"],
   ["X1EA6Q310Q3X2610111011404030N0V0duON8E2I19fHsFb0pLUXZBm0ZVi124OF0XpeD1e51"]⟩,
  ⟨["patternwhitespace", "patws"], ["94I0Z40dy81O1"]⟩,
  ⟨["prependedconcatenationmark", "pcm"], ["Xm05cN0XH0i01YG0YX+Q0F0"]⟩,
  ⟨["quotationmark", "qmark"], ["X2040a30F0dwS7P1Zm70k93D2Xpn13bT040YQ1"]⟩,
  ⟨["radical"], ["hq0P1YOCcL"]⟩,
  ⟨["regionalindicator", "ri"], ["Zyl6P"]⟩,
  ⟨["sentenceterminal", "sterm"],
   ["X10C0G0Xg90aJ2bK0XB2dM0XT01031f51Xt41uM041u50c61aT1XD050fQ1h23b21A121T2bR1Y11z40N192ZbF2f",
     "I0D0M1jD0zdS0eE1d3030hU1YM1YV0aO1aJ2aG1dP0qn6021XR031b90C0G0Y10YtK1XdT4XC3bT1ZL3ZV2a1160G",
     "1YO111ZC0fA1ZL1hL15EZ91dP2m5010dR1YN1j41rK1YA1ov91a50Y11B0n91f80pm60dl80"]⟩,
  ⟨["softdotted", "sd"],
   ["Z91c40eP0U0XK0K0g00Z2010ce90XJ0D030a40aT0j50cM1YvI0Zfz51XI1XI1XI1XI1XI1XI1XI1XI1XI1XI1XI1",
     "XI1Ya60fH1Q0"]⟩,
  ⟨["terminalpunctuation", "term"],
   ["X10A010B130vU080m10XP0Y80E012bK0XBA10dB1XM517V0e51XdK1bC045fN1uL7u50ZS2Y71aT230X7321fQ1h2",
     "3b21A112T2bR4XU1z40N192ZbF2fI0D040A01131jC1zdR1eD2d34hU1YM1YV0aN2aJ2ZV0G1dP0qn6021XP213b9",
     "0A010B130Y1020XXQ0XG0Xa60c70fM1aO5Y45YP3zO4XC3bT6ZG3ZV2a1160G1YO4ZC0fA1ZL2C1h633EZ91dP2m5",
     "010dR1YN141iU2XD0q51YA1XfB4nlP1a50Y12A0n91f71pm60dl73"]⟩,
  ⟨["unifiedideograph", "uideo"],
   ["jW0cjVY0qlVsmE11011A0101122YXkMXfsVX0aeT2bqD2dfGFpDaj2awA5ef9"]⟩,
  ⟨["uppercase", "upper"],
   ["Y1PZ5M16X10101010101010101010101010101010101010101010101010101010201010101010101020101010",
     "10101010101010101010101010101010101010111010311011122311123111101011102011121011307020202",
     "01010101010101020101010101010101020201210101010101010101010101010101010101010101010101010",
     "101010107111201310101010f10103080601210111G18X30223010101010101010101010105020112XIXG0101",
     "01010101010101010101010101010901010101010101010101010101010101010101010101010101010111010",
     "10101010201010101010101010101010101010101010101010101010101010101010101010101010101010101",
     "0101010101010102X5Yw9X51050sIYLYaJ06XA22g001010101010101010101010101010101010101010101010",
     "10101010101010101010101010101010101010101010101010101010101010101010101010101010101010101",
     "01010101010109010101010101010101010101010101010101010101010101010101010101010101010101010",
     "10101010101010101010109785A78785B010101087Y83C3C3C4B3e6040322220346010101323A150QFJ0vIPXv",
     "GXFXG012201010131020821010101010101010101010101010101010101010101010101010101010101010101",
     "0101010101010101010101010101010801040+gD010101010101010101010101010101010101010101010J010",
     "101010101010101010101010a7010101010101030101010101010101010101010101010101010101010101010",
     "101010101010A0101110101010401020103010101010101010101014141010101010101013101110101010101",
     "01010O0rvBPXc5X7a8X3aSA1E1611XtAXIaTLYvQVri0VY0Ovg7PQPQPQ01120212317QPQ1132716R113141036R",
     "PQPQPQPQPQPUOX1OX1OX1OX1OX10afLX1YWEP6P6P"]⟩,
  ⟨["variationselector", "vs"], ["cWB210XvlGFwWtGdF"]⟩,
  ⟨["whitespace", "wspace", "space"], ["94I0Z40Q0bkV0YhVAT150XF0Zz00"]⟩,
  ⟨["xidcontinue", "xidc"],
   ["XG97P401PXF0A010205M1U1k94BE47010HZK11321064101J1YI1aA142b51X5206X88XC101111108Q43TA5Y94Z",
     "517291I20GXQ2Z4EXL40202XDIR4A5N167YA1a0291I17212L1610332821238041142BA0102215412L16111111",
     "201441223073107FB218121L16111429121220F329961217212L1611142821227241142910G11532133110113",
     "1323B4432132060E9GC121M1F2812137112112329G317121M19142812137152132912CC121XI1214537429A51",
     "21H3N181026304510176921DXP5E19X7110141N101M2410161923X00N169B01010491X34J1H1X390XPY96YD2X",
     "510502XA1gC132610132X8132X0132610132E1XO132Y22298EFGYL253pB2G1P5YA3A7L9LBJCC1211CYJ304129",
     "X121A6YO7XA5Y5AU1B4BAX724BXB4P6AX5R4XU1S2A69D08D1U2BKYC39H8CZJCXN893XG2A5XA22G21X65mL252X",
     "525271010101U2XK1610321633254C5216F1XH1J0S0D0GCXJC403BH0402910256010101F235440HX8YpNd468C",
     "X510502XN70FN96161616161616161Vm52PE14244YL21221YU5XA1YTHVXGFm0cjVY0rqCY3XD2eC3RKXF491ZIX",
     "582Z62YHKXM40JXJCY5A96N301XG2X3CS3Y0EA6U1XM9D296M3Y8O22F24A5252596161XA1D6ZQ11296gz3CM4XG",
     "ee4hD2Z9X66C45B1C141011111ZBX1aA6cPIXV2XLX896FGF31O2X1010301010101ZTJ97P401PAYP35252522X3",
     "B1P1I111E2DX2ZQY5XKa80a2S3XGF0VVDT5XA5T2X34714XAaT296X34X34X78XJCA1E16111A1E16113XJCfM9LA",
     "7O51X918Y55201XB11302MAM9UY1I11ALAP6PX6XN61Y031157121S2240X0S3SX371TPXLALAIDHZEY8XNXIDXID",
     "X7896X5341MdQX91131G5XIX2A08X0VLXAKRM9Y6VF9XR70DO796XK19438X3209Y4431C10X3H1X463XU610131E",
     "197XQ596317212L1611141921222060562634B910201X51910201317D1TYA5943UY51089b6XL28N5X2Y030B9X",
     "6XO796JSQ2E4966bPXQZ5Y9L72027111T1128C9Y672XD2711RXU808Y930IY8Z77YOX0F9681XC18F9OT2L1DY96",
     "111XB3011188965111X41115796XB49dMM9G1X834DAYL0YFyPZ6ZEHc3YoCZ0FXXFGLAZyQ5o6crPXPXs6nO7U19",
     "6YE196T24BXM93C99K5IjGXC39c6XVX0O2OXCYA4XO7GY0111B69dcLX9VZ1ZIelT316111f2F0T220E38iBYe4ZA",
     "5C387931aYH9m6XD2MmU4358726U3aK2jRYK1Y6112021231B10161Y01327161R131410361gJ2O1O1U1O1U1O1U",
     "1O1U1O172XHm0XM4XH80E0M41EXYGU65cL61G2611145XTX10ZGXC3D2940g1UHXPkMX9cMXAc5U1L81d0613111E",
     "1c4B6X9YB49Xb631Q1110201913101060401010121110201010101011102316131310191G52141GZfK9XW6Xfs",
     "VX0aeT2bqD2dfGFpDYj2mTXl2awA5ef9rpa6dF"]⟩,
  ⟨["xidstart", "xids"],
   ["Y1P6PXF0A0405M1U1k94BE47010a141132106012101J1YI1aA8b51X5206X8Y7Q43XDXAX311Z210F171A220G01",
     "TTYOB0OX091405L409030NO7A5N16GX9XQXL30I079FF47212L16103330G0D112E1A085412L16111111V310J2G",
     "8121L16111430I0F1N0B7212L16111430U112F0H015321331101131323BM0XK7121M1F30Q21121U047121M191",
     "430U211F1H8121X820G05282O55H3N181026XQXF10D6XQ110141N101910A02410L3X00XV71X3R4ZJXAK0G5433",
     "031724CC0HX510502XA1gC132610132X8132X0132610132E1XO132Y2X5FGYL253pB2G1P5YA3A7HDIEHEC12FXJ",
     "X3040Y3YO7X8105Y5AUXHT24BXB4PXMM9XKYI0YTXEH7XMTD1AXBQX3X92AX32A5XA22X931511305bVY0eL252X5",
     "25271010101U2XK1610321633254C5216ZK0D0GCZ50402910256010101F235440HX8YpNd46331CX510502XN70",
     "GM9616161616161616n62P874244YL621YP135XA1YTHVXGFm0cjVY0rqCY3XD2eC3FA1KXEGU2YFX782Z62YHKG1",
     "2131MTXJEXHXU53011BRAMPS7XES0G419A41X8N217KM303XH1031242010O22A72C5252596161XA1D6ZITgz3CM",
     "4XGee4hD2Z9X66C450191C141011111ZBX1aA6cPIXV2XLX89ZN010301010101ZTX4P6PBXN2U35252522X3B1P1",
     "I111E2DX2ZQY5XKeBS3XGXFVDT5X5AT2X34714XAaTIX34X34X78XJCA1E16111A1E16113XJCfM9LA7O51X918Y5",
     "5201XB11302MAM9UY1I11ALAP6PX6XN61Y00F3121SXAS3SX371RRXLALAIDHZEY8XNXIDXIDX3X6R9MdQX961G5X",
     "OSA08LXAHXEKRMCXKXP120DXCX0OQX3T0208X230CXFE3L010X3H1OJ1XV610131E197XEX67212L16111430I0C4",
     "U910201X510P010XCXKI3K2UXFK110bOXEX93X4XFK0XRXAD0Y7QX56bPXBZKXVV72027111NF010YU72X6G010S0",
     "AX770L0BXDJ0IY8c7X0V81X4H0XHTZG6111X5L0P5111VE0NXBe4IF01C1X1ZS0YFyPZ6ZEHc3YoCZ0FXXFH5PZyQ",
     "5o6crPTXt2nO7UHYEHTIXFG3VK5IjGXCcJXVX0O2OXCYA50Y2CY0110E49dcLX9VZ1ZIelT316111f2F0T220E38i",
     "BYe4ZA5C3879bx6YK1Y6112021231B10161Y01327161R131410361gJ2O1O1U1O1U1O1U1O1U1O17XvKU65e5XTa",
     "IXCA6G0g1TIXBl4Rd4T20cFU1211162491d0613111E1c4XRY370XbK31Q1110201913101060401010121110201",
     "010101011102316131310191G52141Gag4XfsVX0aeT2bqD2dfGFpDYj2mTXl2awA5ef9"]⟩]

/-- The code points of a property that has a table of its own. -/
def tabled (name : String) : CodeSet :=
  ((propertyTable.find? (·.hasName name)).map (·.codes)).getD CodeSet.empty

/-- The properties that are a remainder: names, the whole property, and what is taken away. -/
def remainderProperty? (name : String) : Option CodeSet :=
  let remainder (whole : String) (parts : List CodeSet) : Option CodeSet :=
    some ((tabled whole).difference (CodeSet.unions parts))
  if name = "otheralphabetic" || name = "oalpha" then
    remainder "alphabetic"
      [tabled "lowercase", tabled "uppercase", singleCategory "lt", singleCategory "lm",
        singleCategory "lo", singleCategory "nl"]
  else if name = "otherlowercase" || name = "olower" then
    remainder "lowercase" [singleCategory "ll"]
  else if name = "otheruppercase" || name = "oupper" then
    remainder "uppercase" [singleCategory "lu"]
  else if name = "othermath" || name = "omath" then
    remainder "math" [singleCategory "sm"]
  else if name = "othergraphemeextend" || name = "ogrext" then
    remainder "graphemeextend" [singleCategory "me", singleCategory "mn"]
  else if name = "otheridstart" || name = "oids" then
    remainder "idstart"
      [singleCategory "lu", singleCategory "ll", singleCategory "lt", singleCategory "lm",
        singleCategory "lo", singleCategory "nl"]
  else if name = "otheridcontinue" || name = "oidc" then
    remainder "idcontinue"
      [tabled "idstart", singleCategory "mn", singleCategory "mc", singleCategory "nd",
        singleCategory "pc"]
  else if name = "otherdefaultignorablecodepoint" || name = "odi" then
    remainder "defaultignorablecodepoint" [singleCategory "cf", tabled "variationselector"]
  else none

/-- A binary property by its loose name. -/
def property? (name : String) : Option CodeSet :=
  match propertyTable.find? (·.hasName name) with
  | some entry => some entry.codes
  | none => remainderProperty? name

/-- Decimal digits of every script. -/
def digits : CodeSet := singleCategory "nd"

/-- White space. -/
def whiteSpace : CodeSet := tabled "whitespace"

/-- Letters and what behaves like letters. -/
def alphabetic : CodeSet := tabled "alphabetic"

/-- The characters of words: letters, marks, digits, connectors and joiners. -/
def wordCharacters : CodeSet :=
  CodeSet.unions
    [alphabetic, singleCategory "mn", singleCategory "mc", singleCategory "me", digits,
      singleCategory "pc", tabled "joincontrol"]

/-- Letters and numbers of every kind. -/
def alphanumeric : CodeSet :=
  CodeSet.unions [alphabetic, digits, singleCategory "nl", singleCategory "no"]

end Waymark.Unicode
